import MapTables.Assembly.Dispatch
import MapTables.Proofs.Assembly.Step

/-!
# What the assembler at work leaves behind

An accepted event leaves what it leads to. A refused one leaves everything as it was.
-/

namespace MapTables.Assembling

variable {κ α : Type}

section

variable {w : Assembling κ} {r : Except AssemblyFault Change × Assembling κ}

theorem get_bind {f : Assembling κ → AssemblingM κ Change} (h : f w w = r) :
    ((get : AssemblingM κ (Assembling κ)) >>= f) w = r :=
  h

theorem exchange_bind {f : Option Feature} {g : Option Feature → AssemblingM κ Change}
    (h : g w.assembler.openFeature { w with assembler.openFeature := f } = r) :
    (exchange f >>= g) w = r :=
  h

end

variable [RowSink κ]

/-- The answer to an event and what is then left: all that the event does, or nothing. -/
def settled (w : Assembling κ) :
    Except AssemblyFault Step → Except AssemblyFault Change × Assembling κ
  | .error f => (.error f, w)
  | .ok s => (.ok s.change,
      ⟨s.next, s.rows.foldl RowSink.enqueue w.sink, w.lines ++ s.note.toArray⟩)

variable {w : Assembling κ}

theorem read_bind {x : Except AssemblyFault α} {f : α → AssemblingM κ Change}
    {g : α → Except AssemblyFault Step} (h : ∀ a, f a w = w.settled (g a)) :
    ((x : AssemblingM κ α) >>= f) w = w.settled (x >>= g) := by
  cases x with
  | error fault => rfl
  | ok a => exact h a

theorem openWith_run (f : Feature) : openWith f w = w.settled (.ok (w.assembler.openWith f)) := by
  obtain ⟨⟨_ | previous, n, c⟩, sink, lines⟩ := w
  · rfl
  · rfl

theorem addTag_run (attributes : Attributes) :
    addTag attributes w = w.settled (w.assembler.addTag attributes) := by
  refine get_bind (read_bind fun key => read_bind fun value => ?_)
  obtain ⟨⟨_ | f, n, c⟩, sink, lines⟩ := w
  · rfl
  · simp only
    cases f.tags.insert? key value with
    | none => rfl
    | some tags => rfl

theorem addNodeRef_run (attributes : Attributes) :
    addNodeRef attributes w = w.settled (w.assembler.addNodeRef attributes) := by
  obtain ⟨⟨_ | ⟨id, edit, tags, _ | _ | _⟩, n, c⟩, sink, lines⟩ := w
  case way => exact get_bind (read_bind fun ref => rfl)
  all_goals rfl

theorem addMember_run (attributes : Attributes) :
    addMember attributes w = w.settled (w.assembler.addMember attributes) := by
  obtain ⟨⟨_ | ⟨id, edit, tags, _ | _ | _⟩, n, c⟩, sink, lines⟩ := w
  case relation => exact get_bind (read_bind fun row => rfl)
  all_goals rfl

theorem start_run (e : Element) (attributes : Attributes) :
    start e attributes w = w.settled (w.assembler.start e attributes) := by
  have opened (kind : FeatureKind) :
      ((Reading.feature kind attributes : AssemblingM κ Feature) >>= openWith) w =
        w.settled ((Reading.feature kind attributes).map w.assembler.openWith) := by
    cases Reading.feature kind attributes with
    | error fault => rfl
    | ok f => exact openWith_run f
  cases e with
  | node => exact opened .node
  | way => exact opened .way
  | relation => exact opened .relation
  | tag => exact addTag_run attributes
  | nodeRef => exact addNodeRef_run attributes
  | member => exact addMember_run attributes

/-- A feature that is not to be closed is back in its place before the fault is raised. -/
theorem close_run (e : Element) : close e w = w.settled (w.assembler.close e) := by
  unfold close Assembler.close
  obtain ⟨⟨_ | f, n, c⟩, sink, lines⟩ := w
  · cases e.feature? with
    | none => rfl
    | some kind => rfl
  · cases e.feature? with
    | none => rfl
    | some kind =>
      refine exchange_bind ?_
      simp only
      split
      · cases kind <;> rfl
      · rfl

theorem dispatch_run (e : Event) (w : Assembling κ) :
    dispatch e w = w.settled (w.assembler.step e) := by
  cases e with
  | start e attributes => exact start_run e attributes
  | close e => exact close_run e

theorem dispatch_of_refused {e : Event} {fault : AssemblyFault}
    (h : (dispatch e w).1 = .error fault) : dispatch e w = (.error fault, w) := by
  rw [dispatch_run] at h ⊢
  cases hs : w.assembler.step e with
  | ok s =>
    rw [hs] at h
    cases h
  | error f =>
    rw [hs] at h
    cases h
    rfl

/-! ## Sequences of events -/

/-- The answers to a sequence of events, and what is left then. After a refusal the next event is
taken all the same. -/
def dispatchAll (w : Assembling κ) : List Event → List (Except AssemblyFault Change) × Assembling κ
  | [] => ([], w)
  | e :: es =>
    let (answer, w) := dispatch e w
    let (answers, w) := w.dispatchAll es
    (answer :: answers, w)

theorem dispatchAll_append (w : Assembling κ) (before after : List Event) :
    w.dispatchAll (before ++ after) =
      ((w.dispatchAll before).1 ++ ((w.dispatchAll before).2.dispatchAll after).1,
        ((w.dispatchAll before).2.dispatchAll after).2) := by
  induction before generalizing w with
  | nil => rfl
  | cons e before ih =>
    simp only [List.cons_append, dispatchAll, ih]
    rfl

/-- A refused event is as good as not sent: whatever came before it, it leaves the open feature, the
numbering of members, the totals, the rows in the sink and the lines as they were, and every later
event is answered as it would be without it and leaves the same. -/
theorem refused_leaves_no_trace (w : Assembling κ) (before after : List Event) (e : Event)
    (fault : AssemblyFault) (h : (dispatch e (w.dispatchAll before).2).1 = .error fault) :
    (dispatch e (w.dispatchAll before).2).2 = (w.dispatchAll before).2 ∧
    ∃ answers, (w.dispatchAll (before ++ after)).1 = (w.dispatchAll before).1 ++ answers ∧
      (w.dispatchAll (before ++ e :: after)).1 =
        (w.dispatchAll before).1 ++ .error fault :: answers ∧
      (w.dispatchAll (before ++ e :: after)).2 = (w.dispatchAll (before ++ after)).2 := by
  have hd := dispatch_of_refused h
  refine ⟨congrArg Prod.snd hd, ((w.dispatchAll before).2.dispatchAll after).1, ?_⟩
  rw [dispatchAll_append, dispatchAll_append]
  simp only [dispatchAll, hd, and_self]

/-- The end of a way within a relation, behind a member that was refused and one that was not. -/
theorem refused_leaves_no_trace_of_way_in_relation :
    let w : Assembling (Array Placed) := { assembler := {}, sink := #[] }
    let member := Event.start .member [("type", "way"), ("ref", "7")]
    let before := [.start .relation [("id", "1")], .start .member [("type", "way")], member]
    let after := [member, .close .relation]
    let fault := AssemblyFault.unbalancedClose .way (some .relation) (some (.relation, 1))
    (dispatch (.close .way) (w.dispatchAll before).2).1 = .error fault ∧
    (w.dispatchAll before).2.assembler.nextSequence = 2 ∧
    (dispatch (.close .way) (w.dispatchAll before).2).2 = (w.dispatchAll before).2 ∧
    (w.dispatchAll (before ++ after)).2.sink.size = 3 ∧
    (w.dispatchAll (before ++ .close .way :: after)).2 = (w.dispatchAll (before ++ after)).2 := by
  intro w member before after fault
  have refused : (dispatch (.close .way) (w.dispatchAll before).2).1 = .error fault := rfl
  obtain ⟨unchanged, -, -, -, unseen⟩ := refused_leaves_no_trace w before after _ fault refused
  exact ⟨refused, by decide +kernel, unchanged, by decide +kernel, unseen⟩

end MapTables.Assembling
