import MapTables.Proofs.Input.Octets
import MapTables.Proofs.Markup.Leftover
import MapTables.Proofs.Markup.Tags

/-!
# Reading undoes writing

The reader of a written document goes from construct to construct and yields the events of the
forest, then the end. It makes no difference what else stands between the tags.
-/

namespace MapTables

namespace Markup

variable {F G : Forest} {what : Option (Element × Attributes)} {w : Bytes}

theorem events_around : (Forest.around what F G).events =
    opening what ++ (F.events ++ (closing what ++ G.events)) := by
  cases what with
  | none => exact Forest.events_append F G
  | some ea => rfl

namespace Cursor

variable {c c' c'' : Cursor} {events events' : List Event} {octets tail t : Bytes} {p : Part}
  {e : Effect}

/-- Nothing but text lies between the reader and the octets. -/
def At (c : Cursor) (octets : Bytes) : Prop := ∃ text, 0x3C ∉ text ∧ c.rest = text ++ octets

theorem isText_of_notMem (ht : 0x3C ∉ t) : ∀ b ∈ t, isText b = true := by
  intro b hb
  rw [isText, bne_iff_ne]
  rintro rfl
  exact ht hb

theorem At.behind_text (h : c.At (t ++ octets)) (ht : 0x3C ∉ t) : c.At octets := by
  obtain ⟨front, hf, hr⟩ := h
  refine ⟨front ++ t, ?_, by rw [hr, List.append_assoc]⟩
  rw [List.mem_append, not_or]
  exact ⟨hf, ht⟩

theorem At.body_nil (h : c.At []) : c.body = [] := by
  obtain ⟨text, ht, hr⟩ := h
  have hd : c.rest.dropWhile isText = [] := by
    rw [hr, List.append_nil]
    exact List.dropWhile_eq_nil_iff.mpr (isText_of_notMem ht)
  rw [body, hd]
  rfl

theorem At.take_part (h : c.At (octets ++ tail)) (hp : IsPart octets p) (fails : Bool) :
    ∃ taken, take fails (c.endsAhead.map Prod.fst) c.start c.body = .ok taken ∧
      taken.part = p ∧ taken.rest = tail := by
  obtain ⟨text, ht, hr⟩ := h
  obtain ⟨body, rfl, htake⟩ := hp
  obtain ⟨-, hbody⟩ := body_of_rest (isText_of_notMem ht)
    (show c.rest = text ++ 0x3C :: (body ++ tail) from hr)
  obtain ⟨taken, htaken, hpart, hrest⟩ := htake fails (c.endsAhead.map Prod.fst) c.start tail
  obtain ⟨taken', htaken', hpart', -, hrest'⟩ := take_congr hbody.symm htaken
  exact ⟨taken', htaken', hpart'.trans hpart, hrest'.trans hrest⟩

structure Yields (c : Cursor) (events : List Event) (c' : Cursor) : Prop where
  done : c'.done.toList.map Item.what = c.done.toList.map Item.what ++ events.map .ok
  read : ∀ failure, c.read failure = c'.read failure

theorem Yields.refl (c : Cursor) : c.Yields [] c := ⟨by simp, fun _ => rfl⟩

theorem Yields.trans (h : c.Yields events c') (h' : c'.Yields events' c'') :
    c.Yields (events ++ events') c'' where
  done := by rw [h'.done, h.done, List.map_append, List.append_assoc]
  read failure := (h.read failure).trans (h'.read failure)

theorem At.behind_part (h : c.At (octets ++ tail)) (hp : IsPart octets p)
    (he : effect c.openNames p = .ok e) (hf : e.fault = none) :
    ∃ c', c'.At tail ∧ c'.openNames = e.openNames ∧ c.Yields e.events c' := by
  obtain ⟨taken, ht, hpart, hrest⟩ := h.take_part hp true
  have hnext : c.next? = some (c.move taken e) :=
    next?_eq_some.mpr ⟨taken, e, ht, by rw [hpart, he], rfl⟩
  refine ⟨c.move taken e, ⟨[], by simp, hrest⟩, rfl, ?_, read_of_next? hnext⟩
  simp only [move, Array.toList_appendList, List.map_append, Effect.items, hf, List.map_map]
  rfl

end Cursor

/-- The reader of a written forest yields its events and has the same elements open as before. -/
theorem Written.reads (h : Written F w) {c : Cursor} {tail : Bytes} (hc : c.At (w ++ tail)) :
    ∃ c', c'.At tail ∧ c'.openNames = c.openNames ∧ c.Yields F.events c' := by
  induction h generalizing c tail with
  | nil => exact ⟨c, hc, rfl, .refl c⟩
  | text noTag _ ih =>
    rw [List.append_assoc] at hc
    exact ih (hc.behind_text noTag)
  | comment plain _ ih =>
    rw [List.append_assoc] at hc
    obtain ⟨c₁, h₁, hn₁, hy₁⟩ := hc.behind_part (isPart_comment plain.2) rfl rfl
    obtain ⟨c₂, h₂, hn₂, hy₂⟩ := ih h₁
    exact ⟨c₂, h₂, hn₂.trans hn₁, hy₁.trans hy₂⟩
  | empty heading _ ih =>
    rw [List.append_assoc] at hc
    have hshut := heading.layout.shut.append (.of_plain (w := [0x2F]) (by decide +kernel))
    obtain ⟨c₁, h₁, hn₁, hy₁⟩ := hc.behind_part (isPart_tag heading.isName hshut)
      (congrArg Except.ok heading.emptyTag) rfl
    obtain ⟨c₂, h₂, hn₂, hy₂⟩ := ih h₁
    refine ⟨c₂, h₂, hn₂.trans hn₁, ?_⟩
    rw [events_around, Forest.events, List.nil_append, ← List.append_assoc]
    exact hy₁.trans hy₂
  | element heading _ blank _ ihF ihG =>
    rw [List.append_assoc, List.append_assoc, List.append_assoc] at hc
    obtain ⟨c₁, h₁, hn₁, hy₁⟩ := hc.behind_part (isPart_tag heading.isName heading.layout.shut)
      (congrArg Except.ok heading.openTag) rfl
    obtain ⟨c₂, h₂, hn₂, hy₂⟩ := ihF h₁
    obtain ⟨c₃, h₃, hn₃, hy₃⟩ := h₂.behind_part (isPart_endTag heading.isName blank)
      (by rw [hn₂, hn₁, effect, heading.closeTag blank]; rfl) rfl
    obtain ⟨c₄, h₄, hn₄, hy₄⟩ := ihG h₃
    refine ⟨c₄, h₄, hn₄.trans hn₃, ?_⟩
    rw [events_around]
    exact hy₁.trans (hy₂.trans (hy₃.trans hy₄))

/-! ## From the start -/

theorem Cursor.stuck_read (c : Cursor) (failure : Option String) :
    (c.read failure).stuck = false := by
  fun_induction read failure c with
  | case8 _ _ _ _ _ _ _ _ _ _ _ _ _ _ ih => exact ih
  | _ => rfl

theorem written_ofDelivery {d : Delivery} (h : Written F d.octets) :
    Written F (Source.ofDelivery d).octets := by
  have hsource : (Source.ofDelivery d).octets = (dropMark (d.pieces.map Piece.octets)).flatten := by
    rw [← octets_withoutMark, ← List.flatMap_def]
    rfl
  rw [hsource]
  rw [Delivery.octets, List.flatMap_def] at h
  cases hp : d.pieces.map Piece.octets with
  | nil => rwa [hp] at h
  | cons p ps =>
    rw [hp] at h
    by_cases hm : utf8Mark <+: p
    · obtain ⟨more, rfl⟩ := hm
      rw [dropMark_of_mark (List.prefix_append _ _)]
      rw [List.flatten_cons, List.append_assoc] at h
      exact h.of_text (by decide)
    · rwa [dropMark_of_not hm]

end Markup

/-- The elements of a written document are read one by one with the attributes that were written,
and then the document is over. -/
theorem reading_undoes_writing {F : Forest} {d : Delivery} (unbroken : d.failure = none)
    (written : Markup.Written F d.octets) :
    (Transcript.ofDelivery d).items.map Item.what = F.events.map .ok ∧
      (Transcript.ofDelivery d).stuck = false := by
  have hc : (Markup.Cursor.ofDelivery d).At ((Markup.Source.ofDelivery d).octets ++ []) :=
    ⟨[], by simp, by rw [List.append_nil]; rfl⟩
  obtain ⟨c', hat, -, hy⟩ := (Markup.written_ofDelivery written).reads hc
  constructor
  · rw [Markup.items_ofDelivery fun _ => unbroken, unbroken, hy.read,
      Markup.Cursor.read_of_nothing hat.body_nil, hy.done]
    rfl
  · unfold Transcript.ofDelivery
    split
    · next hf => cases unbroken.symm.trans hf
    · exact Markup.Cursor.stuck_read _ _

/-- A way in an element of another kind, with a comment and an empty element beside its node, and
the names in other cases than usual. It comes in two pieces, cut within the way's tag. -/
theorem reading_undoes_writing_of_way :
    let front := "<OSM version=\"0.6\">\n<!-- one --><Way id"
    let back := " = '1' name=\"a &amp; &quot;b&quot;\nü\" ><x:note/>\n<ND ref=\"2\"/></Way ></OSM>\n"
    let d : Delivery := { pieces := [⟨.ofString front, 40⟩, ⟨.ofString back, 120⟩] }
    let F : Forest := .cons .way [("id", "1"), ("name", "a & \"b\"\nü")]
      (.cons .nodeRef [("ref", "2")] .nil .nil) .nil
    d.failure = none ∧ Markup.Written F d.octets ∧
      (Transcript.ofDelivery d).items.map Item.what =
        [.ok (.start .way [("id", "1"), ("name", "a & \"b\"\nü")]),
          .ok (.start .nodeRef [("ref", "2")]), .ok (.close .nodeRef), .ok (.close .way)] := by
  intro front back d F
  -- One space stands in front of each attribute, and the same around its `=`.
  have entry (name value : String) (q : UInt8) (s : Bytes) {rest : Attributes} {w : Bytes}
      (isName : Markup.IsName name) (quote : Markup.IsQuote q) (blank : Markup.IsBlank s)
      (behind : Markup.WrittenAttributes rest w) :
      Markup.WrittenAttributes ((name, value) :: rest) ([0x20] ++ (.ofString name ++
        (s ++ 0x3D :: (s ++ q :: (Markup.writtenValue value ++ q :: w))))) :=
    .cons (by decide) (by decide) isName blank blank quote behind
  have other {name : String}
      (h : Element.ofName? (Tag.localName (Bytes.ofString name)) = none) (e : Element) :
      ¬ Markup.Denotes name e := fun he => by
    cases h.symm.trans (Markup.ofName?_localName.mpr he)
  have osm : Markup.Heading none "OSM" _ := .other (by decide) (other (by decide +kernel))
    (entry "version" "0.6" 0x22 [] (by decide) (by decide) (by decide)
      (.nil (s := []) (by decide))).layout
  have note : Markup.Heading none "x:note" _ := .other (by decide) (other (by decide +kernel))
    (Markup.WrittenAttributes.nil (s := []) (by decide)).layout
  have way : Markup.Heading (some (.way, _)) "Way" _ := .element (by decide)
    (Markup.denotes_of_lower (by decide) (by decide)) (by decide)
    (entry "id" "1" 0x27 [0x20] (by decide) (by decide) (by decide)
      (entry "name" "a & \"b\"\nü" 0x22 [] (by decide) (by decide) (by decide)
        (.nil (s := [0x20]) (by decide))))
  have nd : Markup.Heading (some (.nodeRef, _)) "ND" _ := .element (by decide)
    (Markup.denotes_of_lower (by decide) (by decide)) (by decide)
    (entry "ref" "2" 0x22 [] (by decide) (by decide) (by decide) (.nil (s := []) (by decide)))
  have inWay := Markup.Written.empty note (.text (t := [0x0A]) (by decide) (.empty nd .nil))
  have inOsm := Markup.Written.text (t := [0x0A]) (by decide)
    (.comment (t := Bytes.ofString " one ") (by decide +kernel)
      (.element way inWay (s := [0x20]) (by decide) .nil))
  have inAll := Markup.Written.element osm inOsm (s := []) (by decide)
    (.text (t := [0x0A]) (by decide) .nil)
  have written : Markup.Written F d.octets := by
    refine Eq.subst (motive := Markup.Written F) ?_ inAll
    decide +kernel
  exact ⟨rfl, written, (reading_undoes_writing rfl written).1⟩

end MapTables
