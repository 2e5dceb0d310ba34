import MapTables.Proofs.Load.Outcome
import MapTables.Proofs.Load.Overlooked
import MapTables.Proofs.Markup.Start

/-!
# Loads of documents that are cut short

A document that is cut short does not load, unless the end that it gets goes unnoticed. In
the end only an open feature is looked for, not whether all elements are closed.
-/

namespace MapTables

open Markup

variable {ω : Type} [Watcher ω]

/-- An undisturbed load ends well just when its input comes to rows. -/
theorem load_ends_well {d : Dataset} {m : Memory} (ho : Opening False d [] m) (input : Input) (w : ω)
    (options : Options) :
    ((∃ report, (load input m d.base w options).result = .ok report) →
      ∃ r, input.assembled options.encoding = .ok r) ∧
    ((∃ r, input.assembled options.encoding = .ok r) →
      (∃ report, (load input m d.base w options).result = .ok report) ∨ Watcher.MayStop w) := by
  unfold Input.assembled
  cases hi : input.items options.encoding with
  | error f =>
    rw [load_of_unread hi]
    constructor
    · rintro ⟨_, h⟩
      cases h
    · rintro ⟨_, h⟩
      cases h
  | ok items =>
    have hl := load_spec drives_memory hi w ho
    cases hr : (load input m d.base w options).result with
    | ok report =>
      rw [hr] at hl
      obtain ⟨counts, R, hp, -⟩ := hl
      constructor
      · rintro -
        exact ⟨_, hp⟩
      · rintro -
        exact Or.inl ⟨report, rfl⟩
    | error f =>
      rw [hr] at hl
      constructor
      · rintro ⟨_, h⟩
        cases h
      · rintro ⟨r, hp⟩
        rcases hl.2 with h | h | h
        · cases h.symm.trans hp
        · exact h.elim
        · exact Or.inr h

namespace Input

def behind (i : Input) (label : Option String) : Cursor :=
  match i.delivery.toUtf8 i.codecs label with
  | .ok (_, d) => (Cursor.ofDelivery d).behind
  | .error _ => { rest := [], ends := [] }

/-- What follows the last complete construct goes unnoticed, with the assembler as it is there. -/
def EndsUnnoticed (i : Input) (label : Option String) (a : Assembler) : Prop :=
  ∃ part, Unended (i.behind label).body part ∧ Overlooked a (i.behind label).openNames part

variable {part whole : Input} {label : Option String}

/-- The complete constructs of a document that is cut short are assembled as those of the whole.
It then comes to rows just if its end goes unnoticed. -/
theorem assembled_of_cut (utf8 : whole.delivery.encoding label = .ok .utf8)
    (cut : part.delivery.IsCutOf whole.delivery) (codecs : part.codecs = whole.codecs)
    {r : Counts × List Placed}
    (h : whole.assembled label = .ok r) :
    ∃ a R, ({} : Assembler).run (eventsOf (part.behind label).done.toList) = .ok (a, R) ∧
      ((∃ r, part.assembled label = .ok r) ↔ part.EndsUnnoticed label a) := by
  obtain ⟨p, w, tail, hp, hw, hunbroken, ht, hforks⟩ := cut.toUtf8 whole.codecs utf8
  rw [← codecs] at hp
  obtain ⟨tail', more, ht', halike⟩ := alike_ofDelivery ht hforks
  have hb : part.behind label = (Cursor.ofDelivery p).behind := by rw [behind, hp]
  have hpart : part.assembled label =
      MapTables.assembled ((Cursor.ofDelivery p).behind.read none).items := by
    rw [Input.assembled, items, hp, Cursor.read_behind, ← hunbroken,
      ← items_ofDelivery fun _ => hunbroken]
    rfl
  unfold EndsUnnoticed
  rw [hpart, hb]
  -- The whole is read further, and its items are assembled.
  have hassembled : MapTables.assembled (Transcript.ofDelivery w).items = .ok r := by
    rw [Input.assembled, items, hw] at h
    exact h
  have hwhole : w.pieces = [] → w.failure = none := by
    intro hnil
    cases hf : w.failure with
    | none => rfl
    | some reason =>
      rw [Transcript.ofDelivery, hnil, hf] at hassembled
      cases hassembled
  rw [items_ofDelivery hwhole] at hassembled
  obtain ⟨b, hb', -, -⟩ := assembled_eq_ok.mp hassembled
  obtain ⟨before, after, hitems, hwhat⟩ := halike.behind ht' w.failure
  rw [hitems] at hb'
  obtain ⟨a, R, hstart⟩ := takeAll_start hb'
  rw [← takeAll_congr _ hwhat] at hstart
  exact ⟨a, R, Assembler.run_of_takeAll hstart,
    assembled_leftover (Cursor.next?_behind _) hstart⟩

end Input

/-- A document that loads well still does so after it is cut short, just if the end that it gets
goes unnoticed. -/
theorem load_of_cut_ends_well (d : Dataset) {part whole : Input} (m : Memory) (w : ω)
    (options : Options) (absent : ∀ k, m.tables.contains (d.tableName k) = false)
    (unstaged : m.staged = #[]) (unlocked : m.lockedTable = none)
    (releasable : m.refusesRelease = false)
    (utf8 : whole.delivery.encoding options.encoding = .ok .utf8)
    (cut : part.delivery.IsCutOf whole.delivery) (codecs : part.codecs = whole.codecs)
    (accepted : ∃ report, (load whole m d.base w options).result = .ok report) :
    ∃ a R, ({} : Assembler).run (eventsOf (part.behind options.encoding).done.toList) = .ok (a, R) ∧
      ((∃ report, (load part m d.base w options).result = .ok report) →
        part.EndsUnnoticed options.encoding a) ∧
      (part.EndsUnnoticed options.encoding a →
        (∃ report, (load part m d.base w options).result = .ok report) ∨ Watcher.MayStop w) := by
  have ho : Opening False d [] m := .of_absent absent unstaged (Or.inr unlocked) (Or.inr releasable)
  obtain ⟨r, hr⟩ := (load_ends_well ho whole w options).1 accepted
  obtain ⟨a, R, hrun, hiff⟩ := Input.assembled_of_cut utf8 cut codecs hr
  obtain ⟨hfrom, hto⟩ := load_ends_well ho part w options
  exact ⟨a, R, hrun, fun h => hiff.mp (hfrom h), fun h => hto (hiff.mpr h)⟩

theorem load_unwatched_ends_well (input : Input)
    (h : (input.assembled none).toOption.isSome = true) :
    ∃ report, (load input ({} : Memory) "city" Unwatched.mk {}).result = .ok report := by
  have ho : Opening False ⟨"city", by decide⟩ [] ({} : Memory) :=
    .of_absent (fun _ => rfl) rfl (Or.inr rfl) (Or.inr rfl)
  refine ((load_ends_well ho input Unwatched.mk {}).2 ?_).resolve_right ?_
  · cases ha : input.assembled none with
    | error f => rw [ha] at h; cases h
    | ok r => exact ⟨r, rfl⟩
  · rintro ⟨_, -, h⟩
    cases h

/-- Cut short within a feature, a document does not load. -/
theorem load_of_cut_ends_well_within_way :
    let text := "<osm><way id=\"1\"><nd ref=\"2\"/>"
    (∃ report, (load (.ofText (text ++ "</way></osm>")) ({} : Memory) "city" Unwatched.mk {}).result =
      .ok report) ∧
    ∀ report, (load (.ofText text) ({} : Memory) "city" Unwatched.mk {}).result ≠ .ok report := by
  intro text
  have hwhole := load_unwatched_ends_well (.ofText (text ++ "</way></osm>"))
    (by decide +kernel)
  refine ⟨hwhole, fun report hpart => ?_⟩
  have htext : Bytes.ofString text = (Bytes.ofString (text ++ "</way></osm>")).take 30 := by
    decide +kernel
  have cut : (Input.ofText text).delivery.IsCutOf (Input.ofText (text ++ "</way></osm>")).delivery := by
    rw [Input.ofText, htext]
    exact isCutOf_ofBytes _ _ _
  obtain ⟨a, R, hrun, hto, -⟩ := load_of_cut_ends_well ⟨"city", by decide⟩ ({} : Memory) Unwatched.mk {}
    (fun _ => rfl) rfl rfl rfl (encoding_eq_ok_iff.mpr (by decide +kernel)) cut rfl hwhole
  have hopen : ((({} : Assembler).run (eventsOf ((Input.ofText text).behind none).done.toList)).toOption.map
      fun r => r.1.openFeature.isSome) = some true := by decide +kernel
  have hbody : ((Input.ofText text).behind none).body = [] := by decide +kernel
  rw [hrun] at hopen
  obtain ⟨part, hu, ho⟩ := hto ⟨report, hpart⟩
  rw [hbody] at hu
  cases hu
  cases ho with
  | passed closed => simp [Except.toOption, closed] at hopen

/-- Cut short behind a feature it does, with the root element still open. -/
theorem load_of_unclosed_root :
    let text := "<osm><way id=\"1\"/>"
    ((Input.ofText text).behind none).openNames = [Bytes.ofString "osm"] ∧
      (∃ report, (load (.ofText (text ++ "</osm>")) ({} : Memory) "city" Unwatched.mk {}).result =
        .ok report) ∧
      ∃ report, (load (.ofText text) ({} : Memory) "city" Unwatched.mk {}).result = .ok report := by
  intro text
  exact ⟨by decide +kernel, load_unwatched_ends_well _ (by decide +kernel),
    load_unwatched_ends_well _ (by decide +kernel)⟩

end MapTables
