import MapTables.Load.Run
import MapTables.Proofs.Assembly.Closings
import MapTables.Proofs.Table.Kept

/-!
# Loads without a store

What an input comes to when its events are assembled into one list of rows. Nothing is
kept back, and nobody watches.
-/

namespace MapTables

/-- The events of a document before its first fault. -/
def eventsOf : List Item → List Event
  | [] => []
  | i :: is =>
    match i.what with
    | .ok e => e :: eventsOf is
    | .error _ => []

/-- Assembles a document. The first thing that goes wrong is what ends it. -/
def Assembler.takeAll (a : Assembler) : List Item → Except LoadFault (Assembler × List Placed)
  | [] => .ok (a, [])
  | i :: is =>
    match i.what with
    | .error f => .error (.unreadable f)
    | .ok e =>
      match a.step e with
      | .error f => .error (.malformed f)
      | .ok s => (s.next.takeAll is).map fun r => (r.1, s.rows ++ r.2)

def assembled (items : List Item) : Except LoadFault (Counts × List Placed) := do
  let (a, rows) ← ({} : Assembler).takeAll items
  match a.finish with
  | .error f => .error (.malformed f)
  | .ok counts => .ok (counts, rows)

namespace Input

/-- A text as an input, delivered in blocks. -/
def ofText (text : String) : Input :=
  { delivery := .ofBytes (Bytes.ofString text) blockSize none }

def items (i : Input) (label : Option String) : Except ReadFault (List Item) :=
  (i.delivery.toUtf8 i.codecs label).map fun r => (Transcript.ofDelivery r.2).items

def events (i : Input) (label : Option String) : List Event :=
  match i.items label with
  | .error _ => []
  | .ok items => eventsOf items

def assembled (i : Input) (label : Option String) : Except LoadFault (Counts × List Placed) :=
  match i.items label with
  | .error f => .error (.unreadable f)
  | .ok items => MapTables.assembled items

end Input

/-! ## Parts of a document -/

namespace Assembler

variable {a b : Assembler} {i : Item} {e : Event} {s : Step} {before after : List Item}
  {R : List Placed}

theorem takeAll_cons (hi : i.what = .ok e) (hs : a.step e = .ok s) :
    a.takeAll (i :: after) = (s.next.takeAll after).map fun r => (r.1, s.rows ++ r.2) := by
  rw [takeAll, hi]
  simp only [hs]

theorem takeAll_cons_eq_ok (h : a.takeAll (i :: after) = .ok (b, R)) :
    ∃ e s S, i.what = .ok e ∧ a.step e = .ok s ∧ s.next.takeAll after = .ok (b, S) ∧
      R = s.rows ++ S := by
  unfold takeAll at h
  split at h
  · cases h
  · next e hi =>
    split at h
    · cases h
    · next s hs =>
      obtain ⟨⟨c, S⟩, hr, h⟩ := map_eq_ok.mp h
      cases h
      exact ⟨e, s, S, hi, hs, hr, rfl⟩

theorem takeAll_append (h : a.takeAll before = .ok (b, R)) :
    a.takeAll (before ++ after) = (b.takeAll after).map fun r => (r.1, R ++ r.2) := by
  induction before generalizing a R with
  | nil =>
    cases h
    rw [List.nil_append]
    cases takeAll _ after <;> rfl
  | cons i before ih =>
    obtain ⟨e, s, S, hi, hs, hr, rfl⟩ := takeAll_cons_eq_ok h
    rw [List.cons_append, takeAll_cons hi hs, ih hr]
    cases b.takeAll after <;> simp [Except.map]

theorem takeAll_of_unreadable {f : ReadFault} (h : a.takeAll before = .ok (b, R))
    (hi : i.what = .error f) : a.takeAll (before ++ i :: after) = .error (.unreadable f) := by
  rw [takeAll_append h, takeAll, hi]
  rfl

theorem takeAll_of_malformed {f : AssemblyFault} (h : a.takeAll before = .ok (b, R))
    (hi : i.what = .ok e) (hs : b.step e = .error f) :
    a.takeAll (before ++ i :: after) = .error (.malformed f) := by
  rw [takeAll_append h, takeAll, hi]
  simp only [hs]
  rfl

theorem takeAll_concat (h : a.takeAll before = .ok (b, R)) (hi : i.what = .ok e)
    (hs : b.step e = .ok s) : a.takeAll (before ++ [i]) = .ok (s.next, R ++ s.rows) := by
  rw [takeAll_append h, takeAll_cons hi hs]
  simp [takeAll, Except.map]

theorem eventsOf_cons (hi : i.what = .ok e) : eventsOf (i :: after) = e :: eventsOf after := by
  rw [eventsOf, hi]

theorem run_of_takeAll (h : a.takeAll before = .ok (b, R)) :
    a.run (eventsOf before) = .ok (b, R) := by
  induction before generalizing a R with
  | nil => cases h; rfl
  | cons i before ih =>
    obtain ⟨e, s, S, hi, hs, hr, rfl⟩ := takeAll_cons_eq_ok h
    rw [eventsOf_cons hi]
    exact run_cons_eq_ok.mpr ⟨s, S, hs, ih hr, rfl⟩

theorem eventsOf_append (h : a.takeAll before = .ok (b, R)) :
    eventsOf (before ++ after) = eventsOf before ++ eventsOf after := by
  induction before generalizing a R with
  | nil => rfl
  | cons i before ih =>
    obtain ⟨e, s, S, hi, -, hr, -⟩ := takeAll_cons_eq_ok h
    rw [List.cons_append, eventsOf_cons hi, eventsOf_cons hi, ih hr, List.cons_append]

theorem finish_eq_ok {counts : Counts} :
    a.finish = .ok counts ↔ a.openFeature = none ∧ a.counts = counts := by
  unfold finish
  split
  · next hf => simp [hf]
  · next hf => simp [hf]

end Assembler

theorem assembled_eq_ok {items : List Item} {counts : Counts} {R : List Placed} :
    assembled items = .ok (counts, R) ↔ ∃ a : Assembler,
      ({} : Assembler).takeAll items = .ok (a, R) ∧ a.openFeature = none ∧ a.counts = counts := by
  unfold assembled
  rw [bind_eq_ok]
  constructor
  · rintro ⟨⟨a, S⟩, ht, h⟩
    simp only at h
    split at h
    · cases h
    · next hf =>
      cases h
      exact ⟨a, ht, Assembler.finish_eq_ok.mp hf⟩
  · rintro ⟨a, ht, hf⟩
    refine ⟨(a, R), ht, ?_⟩
    simp only [Assembler.finish_eq_ok.mpr hf]

/-! ## Loads and their documents -/

section

variable {σ ω : Type} [Store σ] [Watcher ω]

theorem load_of_unread {input : Input} {options : Options} {f : ReadFault}
    (h : input.items options.encoding = .error f) (s : σ) (d : Dataset) (w : ω) :
    load input s d.base w options = { result := .error (.unreadable f), store := s, watcher := w } := by
  unfold Input.items at h
  unfold load
  rw [Dataset.ofBase_base]
  cases hu : input.delivery.toUtf8 input.codecs options.encoding with
  | error g => rw [hu] at h; cases h; rfl
  | ok r => rw [hu] at h; cases h

/-- A load of a dataset before it asks for anything. -/
def Load.initial (d : Dataset) (i : Input) (s : σ) (w : ω) (options : Options) (lines : Journal) :
    Load σ ω where
  writing := { writer := { dataset := d, batchSize := options.batchSize }, store := s, lines }
  monitor := .ofTotal i.total options.averageFeature
  watcher := w

def Outcome.ofEnd (r : Except LoadFault Report × Load σ ω) : Outcome σ ω where
  result := r.1
  store := r.2.writing.store
  watcher := r.2.watcher
  lines := r.2.writing.lines
  asked := r.2.monitor.asked
  counts := r.2.assembler.counts

theorem load_begins {input : Input} {options : Options} {items : List Item}
    (h : input.items options.encoding = .ok items) (d : Dataset) :
    ∃ lines, ∀ (s : σ) (w : ω), load input s d.base w options = .ofEnd
      (Load.run options.dropExisting input.gauge items (.initial d input s w options lines)) := by
  unfold Input.items at h
  obtain ⟨r, hu, rfl⟩ := map_eq_ok.mp h
  refine ⟨#[Journal.debug s!"reading OSM input as {r.1.name}",
    Journal.info s!"ingesting OSM XML into tables {d.base}_*"], fun s w => ?_⟩
  unfold load
  rw [Dataset.ofBase_base]
  simp only [hu]
  rfl

theorem load_of_items {input : Input} {options : Options} {items : List Item}
    (h : input.items options.encoding = .ok items) (s : σ) (d : Dataset) (w : ω) :
    ∃ lines, load input s d.base w options = .ofEnd
      (Load.run options.dropExisting input.gauge items (.initial d input s w options lines)) :=
  (load_begins h d).imp fun _ hl => hl s w

end

end MapTables
