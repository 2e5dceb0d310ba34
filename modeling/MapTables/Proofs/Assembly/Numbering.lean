import MapTables.Proofs.Assembly.History
import MapTables.Proofs.Assembly.Keys
import MapTables.Proofs.Assembly.Told

/-!
# Numbers of members

The number of the next member is kept beside the open feature and not in it. It is the first one
whenever a relation is opened, so the members of each opening are numbered from one, in their
order, whatever becomes of the relation.
-/

namespace MapTables

namespace Answered

def relation? (x : Answered) : Option Int :=
  match x.opening? with
  | some (.relation, a) => a.told? "id" Reading.id?
  | _ => none

def member? (x : Answered) : Option Member :=
  match x.event with
  | .start .member a => if x.isAccepted then a.member? else none
  | _ => none

theorem of_error (a : Assembler) (e : Event) (fault : AssemblyFault) :
    relation? ⟨a, e, .error fault⟩ = none ∧ member? ⟨a, e, .error fault⟩ = none := by
  cases e with
  | close => exact ⟨rfl, rfl⟩
  | start e => cases e <;> exact ⟨rfl, rfl⟩

end Answered

/-- What came after the last opening of a feature, the latest first. -/
def sinceOpening (H : List Answered) : List Answered := H.reverse.takeWhile (!·.opens)

/-- A relation that was opened, and the members that were accepted before the next opening. -/
structure Enrolment where
  relation : Int
  members : List Member

def joining (H : List Answered) : List Member :=
  (H.takeWhile (!·.opens)).filterMap Answered.member?

def enrolments : List Answered → List Enrolment
  | [] => []
  | x :: H =>
    match x.relation? with
    | some id => ⟨id, joining H⟩ :: enrolments H
    | none => enrolments H

/-- The rows of members with numbers from the given one on, each for the table of its kind. -/
def numbered (relation : Int) : Int32 → List Member → List Placed
  | _, [] => []
  | n, m :: members =>
    (.membersOf m.kind, .member ⟨relation, m.ref, m.kind, m.role, n⟩) ::
      numbered relation (n + 1) members

def Enrolment.rows (e : Enrolment) : List Placed := numbered e.relation 1 e.members

theorem length_numbered (relation : Int) (n : Int32) (members : List Member) :
    (numbered relation n members).length = members.length := by
  induction members generalizing n with
  | nil => rfl
  | cons m members ih => exact congrArg Nat.succ (ih _)

theorem number?_numbered (relation : Int) {n : Nat} {members : List Member}
    (h : n + members.length ≤ mostNumbered + 3) :
    (numbered relation (.ofNat n) members).map (fun r => r.2.number?) =
      (List.range' n members.length).map fun (n : Nat) => some (n : Int) := by
  induction members generalizing n with
  | nil => rfl
  | cons m members ih =>
    rw [List.length_cons] at h
    have hn : (Int32.ofNat n).toInt = n := toInt_ofNat (by omega)
    have hnext : Int32.ofNat n + 1 = .ofNat (n + 1) := (Int32.ofNat_add n 1).symm
    rw [numbered, List.map_cons, hnext, ih (by omega), List.length_cons, List.range'_succ,
      List.map_cons, ← hn]
    rfl

/-- As long as the numbers are within 32 bits they are the places of the members. -/
theorem Enrolment.numbered (e : Enrolment) (h : e.members.length ≤ Int32.maxValue.toInt) :
    Numbered e.rows := by
  have hlen : e.members.length ≤ mostNumbered + 2 := Int.ofNat_le.mp h
  rw [Numbered, rows, length_numbered]
  exact number?_numbered e.relation (n := 1) (by omega)

/-! ## The next number -/

theorem sinceOpening_concat (H : List Answered) (x : Answered) :
    sinceOpening (H ++ [x]) = if x.opens then [] else x :: sinceOpening H := by
  rw [sinceOpening, List.reverse_concat, List.takeWhile_cons]
  cases x.opens <;> rfl

/-- The next number tells how many members the open relation has by now. -/
def Numbers (H : List Answered) (a : Assembler) : Prop :=
  a.nextSequence = if a.state = some .relation
    then .ofNat ((sinceOpening H).countP (Answered.starts .member) + 1)
    else firstSequence

namespace Numbers

variable {H : List Answered} {a : Assembler} {e : Event} {s : Step}

theorem fresh (h : Numbers H a) : a.Fresh := fun hs => h.trans (if_neg hs)

theorem keep (h : Numbers H a) {x : Answered} {b : Assembler} (opens : x.opens = false)
    (joins : x.starts .member = false) (context : b.context = a.context)
    (sequence : b.nextSequence = a.nextSequence) : Numbers (H ++ [x]) b := by
  unfold Numbers at h ⊢
  rw [Assembler.state_eq] at h ⊢
  rw [sinceOpening_concat, opens, if_neg Bool.false_ne_true, List.countP_cons, joins, context,
    sequence]
  exact h

theorem join (h : Numbers H a) {x : Answered} {b : Assembler} (isOpen : a.state = some .relation)
    (opens : x.opens = false) (joins : x.starts .member = true) (state : b.state = a.state)
    (sequence : b.nextSequence = a.nextSequence + 1) : Numbers (H ++ [x]) b := by
  unfold Numbers at h ⊢
  rw [if_pos isOpen] at h
  rw [state, if_pos isOpen, sinceOpening_concat, opens, if_neg Bool.false_ne_true,
    List.countP_cons_of_pos joins, sequence, h]
  exact (Int32.ofNat_add _ 1).symm

theorem refuse (h : Numbers H a) (e : Event) (fault : AssemblyFault) :
    Numbers (H ++ [⟨a, e, .error fault⟩]) a := by
  refine h.keep rfl ?_ rfl rfl
  cases e <;> simp [Answered.starts, Answered.isAccepted, Except.isOk, Except.toBool]

theorem take (h : Numbers H a) (hs : a.Takes e s) :
    Numbers (H ++ [⟨a, e, .ok s.change⟩]) s.next := by
  have hc := hs.context_eq
  cases hs with
  | opens =>
    unfold Numbers
    rw [sinceOpening_concat, Assembler.openWith_change, h.fresh.openWith]
    exact (ite_self _).symm
  | tags | repeats | refers => exact h.keep rfl rfl (hc rfl) rfl
  | joins isOpen isRelation =>
    exact h.join (Assembler.state_of_joins isOpen isRelation) rfl rfl rfl rfl
  | ignores => exact h.keep rfl rfl rfl rfl
  | closes isOpen kind =>
    subst kind
    exact h.fresh.close isOpen

end Numbers

/-! ## The rows of members -/

theorem joining_cons_of_opens {x : Answered} (h : x.opens = true) (H : List Answered) :
    joining (x :: H) = [] := by
  rw [joining, List.takeWhile_cons, h]
  rfl

theorem joining_cons {x : Answered} (h : x.opens = false) (H : List Answered) :
    joining (x :: H) = x.member?.toList ++ joining H := by
  rw [joining, List.takeWhile_cons, h, joining]
  cases hm : x.member? <;> simp [hm]

/-- The rows of the members by which the open relation will still grow. -/
def pending (a : Assembler) (H : List Answered) : List Placed :=
  match a.context with
  | some (.relation, id) => numbered id a.nextSequence (joining H)
  | _ => []

theorem pending_of_joining {H : List Answered} (h : joining H = []) (a : Assembler) :
    pending a H = [] := by
  unfold pending
  rw [h]
  split <;> rfl

theorem pending_congr {a b : Assembler} {H G : List Answered} (context : b.context = a.context)
    (sequence : b.nextSequence = a.nextSequence) (h : joining H = joining G) :
    pending b H = pending a G := by
  unfold pending
  rw [context, sequence, h]

def memberRows (a : Assembler) (H : List Answered) : List Placed :=
  pending a H ++ (enrolments H).flatMap Enrolment.rows

theorem memberRows_congr {a b : Assembler} {H G : List Answered} (context : b.context = a.context)
    (sequence : b.nextSequence = a.nextSequence) (h : joining H = joining G)
    (same : enrolments H = enrolments G) : memberRows b H = memberRows a G := by
  rw [memberRows, pending_congr context sequence h, same, memberRows]

namespace Assembler

variable {a : Assembler} {e : Event} {s : Step} {H : List Answered}

theorem memberRows_of_error (a : Assembler) (e : Event) (fault : AssemblyFault)
    (H : List Answered) : memberRows a (⟨a, e, .error fault⟩ :: H) = memberRows a H := by
  have hx := Answered.of_error a e fault
  apply memberRows_congr rfl rfl
  · rw [joining_cons rfl, hx.2]; rfl
  · rw [enrolments, hx.1]

theorem memberRows_openWith (fresh : a.Fresh) {k : FeatureKind} {attributes : Attributes}
    {f : Feature} (read : Reading.feature k attributes = .ok f) :
    memberRows a (⟨a, .start k.element attributes, .ok (.opened f.kind)⟩ :: H) =
      memberRows (a.openWith f).next H := by
  rw [memberRows, pending_of_joining (joining_cons_of_opens rfl H), memberRows, pending, context,
    openWith_isOpen, Option.map_some, Reading.kind_of_feature read, fresh.openWith]
  cases k with
  | node => rfl
  | way => rfl
  | relation =>
    have hr : Answered.relation? ⟨a, .start FeatureKind.relation.element attributes,
        .ok (.opened .relation)⟩ = some f.id := Reading.id_of_feature read
    rw [enrolments, hr]
    rfl

theorem memberRows_of_takes (fresh : a.Fresh) (h : a.Takes e s)
    (idle : s.next.state ≠ some .relation → joining H = []) :
    memberRows a (⟨a, e, .ok s.change⟩ :: H) =
      s.rows.filter (·.2.isMember) ++ memberRows s.next H := by
  have hc := h.context_eq
  cases h with
  | opens read =>
    rw [openWith_rows, openWith_change]
    exact memberRows_openWith fresh read
  | tags | repeats | refers => exact (memberRows_congr (hc rfl) rfl rfl rfl).symm
  | @joins attributes f row isOpen isRelation read =>
    obtain ⟨m, hm, rfl⟩ := Reading.member_eq_ok read
    have hx := context_of_joins isOpen isRelation
    have hm' : Answered.member? ⟨a, .start .member attributes, .ok .extended⟩ = some m := hm
    rw [memberRows, pending, hx, joining_cons rfl, hm', memberRows, pending, hc rfl, hx]
    rfl
  | ignores => rfl
  | @closes k f isOpen kind =>
    have hrows : f.rows.filter (·.2.isMember) = [] :=
      List.filter_eq_nil_iff.mpr fun r hr => by simp [(Feature.mem_rows hr).2.2]
    -- None came before the next opening, so nothing was pending either.
    have hj := idle (Option.some_ne_none _).symm
    rw [hrows, memberRows, memberRows, pending_of_joining hj, pending_of_joining ?_]
    · cases k <;> rfl
    · rw [joining_cons rfl, hj]
      cases k <;> rfl

end Assembler

namespace Assembling

variable {w : Assembling (Array Placed)}

theorem numbers_history (es : List Event) :
    Numbers (blank.history es) (blank.dispatchAll es).2.assembler :=
  history_induction (P := fun H a _ => Numbers H a) rfl (fun _ _ _ e fault h _ => h.refuse e fault)
    (fun _ _ _ _ _ h hs => h.take hs) es

theorem joining_history (h : w.assembler.state ≠ some .relation) (es : List Event) :
    joining (w.history es) = [] := by
  induction es generalizing w with
  | nil => rfl
  | cons e es ih =>
    rw [history]
    cases hs : w.assembler.step e with
    | error fault =>
      rw [dispatch_of_fault hs, joining_cons rfl, (Answered.of_error _ e fault).2, ih h]
      rfl
    | ok s =>
      have ht := Assembler.takes_of_step hs
      have hc := ht.context_eq
      rw [dispatch_of_step hs]
      have next (hn : s.next.state ≠ some .relation) := ih (w := w.take s) hn
      cases ht with
      | opens => rw [Assembler.openWith_change, joining_cons_of_opens rfl]
      | tags | repeats | refers =>
        rw [joining_cons rfl]
        exact next fun hr => h ((Assembler.state_of_context (hc rfl)).symm.trans hr)
      | joins isOpen isRelation => exact absurd (Assembler.state_of_joins isOpen isRelation) h
      | @ignores e =>
        rw [joining_cons rfl]
        cases e <;> exact next h
      | @closes k =>
        rw [joining_cons rfl]
        have hj := next (Option.some_ne_none _).symm
        cases k <;> exact hj

theorem members_dispatchAll (fresh : w.assembler.Fresh) (es : List Event) :
    (w.dispatchAll es).2.sink.toList.filter (·.2.isMember) =
      w.sink.toList.filter (·.2.isMember) ++ memberRows w.assembler (w.history es) := by
  induction es generalizing w with
  | nil =>
    rw [history, memberRows, pending_of_joining rfl, enrolments, List.flatMap_nil, List.append_nil,
      List.append_nil]
    rfl
  | cons e es ih =>
    rw [dispatchAll_cons, history]
    cases hs : w.assembler.step e with
    | error fault =>
      rw [dispatch_of_fault hs, Assembler.memberRows_of_error]
      exact ih fresh
    | ok s =>
      have ht := Assembler.takes_of_step hs
      have hrows : (w.take s).sink.toList = w.sink.toList ++ s.rows := toList_enqueueAll ..
      rw [dispatch_of_step hs, ih (fresh.take ht), hrows, List.filter_append, List.append_assoc,
        Assembler.memberRows_of_takes fresh ht fun hn => joining_history hn es]
      rfl

/-- In every state that events lead to, refused ones among them, the next number is one, or it is
that of the member after those that were accepted since the relation was opened. The rows of
members are those of each opening of a relation in its turn, numbered from one in the order of the
members and with its id, be it closed, replaced or open in the end. These numbers are the true ones
as long as they are within 32 bits. -/
theorem members_numbered (es : List Event) :
    let H := blank.history es
    let a := (blank.dispatchAll es).2.assembler
    let next := if a.state = some .relation
      then 1 + (sinceOpening H).countP (Answered.starts .member) else 1
    (a.nextSequence = .ofNat next ∧ (next ≤ Int32.maxValue.toInt → a.nextSequence.toInt = next)) ∧
    (blank.dispatchAll es).2.sink.toList.filter (fun r => r.2.isMember) =
      (enrolments H).flatMap Enrolment.rows ∧
    ∀ e ∈ enrolments H, e.members.length ≤ Int32.maxValue.toInt → Numbered e.rows := by
  intro H a next
  have hnext : a.nextSequence = .ofNat next := by
    refine (numbers_history es).trans ?_
    simp only [next, H, a, Nat.add_comm]
    split <;> rfl
  refine ⟨⟨hnext, fun h => hnext ▸ toInt_ofNat (Int.ofNat_le.mp h)⟩,
    members_dispatchAll (w := blank) Assembler.fresh_initial es, fun e _ h => e.numbered h⟩

end Assembling
end MapTables
