import MapTables.Proofs.Load.Marked
import MapTables.Proofs.Markup.Reordered

/-!
# Loads of attributes in another order

A load comes to the same for every order of the attributes in a tag, as long as none that is looked
for has two values there. Attributes go by their local names, so two with different prefixes have
one name.
-/

namespace MapTables

open Markup

/-! ## Documents -/

theorem Event.Matches.opensFeature {e e' : Event} (h : e.Matches e') :
    e'.opensFeature = e.opensFeature := by
  cases h <;> rfl

theorem Event.Matches.step {e e' : Event} (h : e.Matches e') (s : Assembler) :
    s.step e' = s.step e := by
  cases h with
  | start same => exact s.start_matches same _
  | close => rfl

/-- In UTF-8 the document of the second input has the attributes of its start tags in another
order, or neither can be decoded. -/
def Input.Reordered (i i' : Input) (label : Option String) : Prop :=
  (∃ f, i.items label = .error f ∧ i'.items label = .error f) ∨
    ∃ e d e' d', i.delivery.toUtf8 i.codecs label = .ok (e, d) ∧
      i'.delivery.toUtf8 i'.codecs label = .ok (e', d') ∧
      d.failure = none ∧ d'.failure = none ∧ (Cursor.ofDelivery d).Reordered (.ofDelivery d')

theorem Input.reordered_of_full {i i' : Input} {bytes bytes' : Bytes}
    (h : Markup.Reordered bytes bytes')
    (unmarked : ∀ b ∈ [bytes, bytes'], Encoding.ofMark? b = none)
    (sniffed : ∀ b ∈ [bytes, bytes'], Encoding.sniff b = .utf8)
    (hi : i.delivery = .full bytes) (hi' : i'.delivery = .full bytes') : i.Reordered i' none := by
  have hu := unmarked bytes (by simp)
  have hu' := unmarked bytes' (by simp)
  refine Or.inr ⟨.utf8, .full bytes, .utf8, .full bytes', ?_, ?_, rfl, rfl, ?_⟩
  · rw [hi, Delivery.toUtf8_of_unmarked hu (sniffed bytes (by simp))]
  · rw [hi', Delivery.toUtf8_of_unmarked hu' (sniffed bytes' (by simp))]
  · refine ⟨_, _, .refl, .refl, rfl, rfl, ?_⟩
    rwa [Delivery.rest_of_unmarked hu, Delivery.rest_of_unmarked hu']

/-! ## Loads -/

section Loads

variable {σ τ ω ω' : Type} [Store σ] [Store τ] [Nonempty τ] [Watcher ω] [Watcher ω']
  {F : LoadFault → LoadFault → Prop} [Std.Refl F]

theorem Load.take_follows_of_matches {gauge gauge' : Gauge} {D : Nat → Nat → Prop}
    (U : Unison ω ω' gauge gauge' D) (anyFault : ∀ f f', F f f') (anyDrawn : ∀ n n', D n n')
    {i i' : Item} (h : i.Matches i') :
    Follows (bond σ τ U F) (take gauge i) (take gauge' i') := by
  obtain ⟨what, p, n⟩ := i
  obtain ⟨what', p', n'⟩ := i'
  cases what with
  | error f =>
    cases what' with
    | error f' => exact .throw_alike (anyFault _ _)
    | ok e' => cases h
  | ok e =>
    cases what' with
    | error f' => cases h
    | ok e' =>
      cases h with
      | some h => exact takeEvent_follows U (anyDrawn n n') h.opensFeature h.step

theorem Input.Reordered.followed {i i' : Input} {o : Options} (h : i.Reordered i' o.encoding)
    {D : Nat → Nat → Prop} (U : Unison ω ω' i.gauge i'.gauge D) (anyFault : ∀ f f', F f f')
    (anyDrawn : ∀ n n', D n n') : Input.Followed σ τ F U o o := by
  refine h.imp_right ?_
  rintro ⟨e, d, e', d', hd, hd', hu, hu', reordered⟩
  refine ⟨(Transcript.ofDelivery d).items, (Transcript.ofDelivery d').items, ?_, ?_, ?_⟩
  · rw [Input.items, hd]
    rfl
  · rw [Input.items, hd']
    rfl
  · rw [items_ofDelivery fun _ => hu, items_ofDelivery fun _ => hu', hu, hu']
    exact Load.run_follows U _ (reordered.read.imp fun _ _ =>
      Load.take_follows_of_matches U anyFault anyDrawn)

end Loads

/-- A load comes to the same for every order of the attributes in the start tags that it reads, and
so does what is looked for in each tag, as long as that has one value. -/
theorem load_of_reordered {σ ω : Type} [Store σ] [Watcher ω] {i i' : Input} {o : Options}
    (reordered : i.Reordered i' o.encoding) {R : ω → ω → Prop} (heedless : Heedless R) {w w' : ω}
    (hw : R w w') (s : σ) (base : String) :
    let x := load i s base w o
    let y := load i' s base w' o
    (y.result.toOption = x.result.toOption ∧ y.counts = x.counts ∧ y.store = x.store) ∧
      ∀ (t : StartTag) (a : Attributes), t.Reads a →
        ((∀ t', t.Reorders t' → ∃ a', t'.Reads a' ∧
          ∀ name ∈ Attributes.lookedUp, a'.get? name = a.get? name) ↔ a.Settled) := by
  intro x y
  refine ⟨?_, fun t a reads => reads.settled_iff⟩
  have : Nonempty σ := ⟨s⟩
  have : Std.Refl fun _ _ : LoadFault => True := ⟨fun _ => trivial⟩
  have followed : Input.Followed σ σ (fun _ _ => True) (heedless.unison i.gauge i'.gauge) o o :=
    reordered.followed _ (fun _ _ => trivial) fun _ _ => trivial
  obtain ⟨hresult, hcounts, hstore, -⟩ := load_followed _ followed (.refl o) hw s base
  exact ⟨hresult.toOption, hcounts, hstore⟩

/-- A way within another element, with a prefix at its user. -/
theorem load_of_reordered_of_prefixed :
    let id := Attribute.plain "id" 0x22 (.ofString "1") (by decide) (by decide) (by decide +kernel)
    let user := Attribute.plain "b:user" 0x22 (.ofString "ann") (by decide) (by decide)
      (by decide +kernel)
    let version := Attribute.plain "version" 0x27 (.ofString "2") (by decide) (by decide)
      (by decide +kernel)
    let way entries : StartTag := ⟨"way", entries, [], true, by decide, by decide⟩
    let octets entries := .ofString "<?xml version='1.0'?>" ++ (tag "osm" [] ++
      ((way entries).octets ++ (endTag "osm" [] ++ [])))
    let input entries : Input := { delivery := .full (octets entries) }
    let x := load (input [id, user, version]) ({} : Memory) "t" Unwatched.mk {}
    let y := load (input [version, id, user]) ({} : Memory) "t" Unwatched.mk {}
    (octets [version, id, user] = .ofString
        "<?xml version='1.0'?><osm><way version='2' id=\"1\" b:user=\"ann\"/></osm>" ∧
      x.store.rows "t_way" =
        #[.way { id := 1, edit := { user := some "ann", version := some 2 } }]) ∧
    (y.result.toOption = x.result.toOption ∧ y.counts = x.counts ∧ y.store = x.store) ∧
      ∀ (t : StartTag) (a : Attributes), t.Reads a →
        ((∀ t', t.Reorders t' → ∃ a', t'.Reads a' ∧
          ∀ name ∈ Attributes.lookedUp, a'.get? name = a.get? name) ↔ a.Settled) := by
  intro id user version way octets input x y
  have settled : (way [id, user, version]).Settled := by
    intro _ a reads
    have expected : (way [id, user, version]).Reads
        [("id", "1"), ("user", "ann"), ("version", "2")] := by
      unfold StartTag.Reads
      decide +kernel
    rw [expected.unique reads]
    decide
  have orders : (way [id, user, version]).Reorders (way [version, id, user]) :=
    ⟨rfl, rfl, by decide +kernel⟩
  have declaration : IsPart (.ofString "<?xml version='1.0'?>") .passed := by
    have written : Bytes.ofString "<?xml version='1.0'?>" =
        0x3C :: 0x3F :: (Bytes.ofString "xml version='1.0'" ++ [0x3F, 0x3E]) := by decide +kernel
    rw [written]
    exact isPart_declaration (by decide +kernel) (by decide +kernel)
  have reordered : Markup.Reordered (octets [id, user, version]) (octets [version, id, user]) :=
    .part declaration (.part (isPart_tag (by decide) .nil)
      (.tag orders settled (.part (isPart_endTag (by decide) (by decide)) .nil)))
  exact ⟨by decide +kernel, load_of_reordered (o := {}) (Input.reordered_of_full reordered
    (by decide +kernel) (by decide +kernel) rfl rfl) heedless_unwatched trivial ({} : Memory) "t"⟩

/-- A way has two identifiers, one of them with a prefix. And a document type ends behind a comment,
where the reader takes a quote for one that opens a value. -/
theorem load_of_reordered_unsettled :
    let entry key value named closed : Attribute :=
      Attribute.plain key 0x22 (Bytes.ofString value) named (Or.inl rfl) closed
    let way entries : StartTag := ⟨"way", entries, [], true, by decide, by decide⟩
    let id := entry "id" "1" (by decide) (by decide +kernel)
    let other := entry "b:id" "2" (by decide) (by decide +kernel)
    let space := entry "xmlns:b" "u" (by decide) (by decide +kernel)
    let m := entry "m" "'" (by decide) (by decide +kernel)
    let n := entry "n" ">" (by decide) (by decide +kernel)
    let front := Bytes.ofString "<!DOCTYPE a [<!ENTITY e \"<\">]><a><!-- >> <x y=' -->"
    let x octets := load { delivery := .full octets } ({} : Memory) "t" Unwatched.mk {}
    let y t := x (front ++ StartTag.octets t ++ Bytes.ofString "</a>")
    ((way [space, other, id]).Reorders (way [space, id, other]) ∧
      (∃ a a', (way [space, other, id]).Reads a ∧ (way [space, id, other]).Reads a' ∧
        a.get? "id" = some "2" ∧ a'.get? "id" = some "1") ∧
      (x (way [space, other, id]).octets).store.rows "t_way" = #[.way { id := 2 }] ∧
      (x (way [space, id, other]).octets).store.rows "t_way" = #[.way { id := 1 }] ∧
      (∃ report, (x (way [space, other, id]).octets).result = .ok report) ∧
      ∃ report, (x (way [space, id, other]).octets).result = .ok report) ∧
    (way [m, n, id]).Reorders (way [n, m, id]) ∧
      (∃ fault, (y (way [m, n, id])).result = .error fault) ∧
      ∃ report, (y (way [n, m, id])).result = .ok report := by
  intro entry way id other space m n front x y
  refine ⟨⟨⟨rfl, rfl, by decide +kernel⟩, ⟨[("b", "u"), ("id", "2"), ("id", "1")],
    [("b", "u"), ("id", "1"), ("id", "2")], ?_, ?_, by decide, by decide⟩, by decide +kernel,
    by decide +kernel, ?_, ?_⟩, ⟨rfl, rfl, by decide +kernel⟩, ?_, ?_⟩
  · unfold StartTag.Reads
    decide +kernel
  · unfold StartTag.Reads
    decide +kernel
  · exact exists_ok_of_isSome (by decide +kernel)
  · exact exists_ok_of_isSome (by decide +kernel)
  · exact exists_error_of_isNone (by decide +kernel)
  · exact exists_ok_of_isSome (by decide +kernel)

end MapTables
