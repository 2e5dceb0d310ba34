import MapTables.Proofs.Load.Parts
import MapTables.Proofs.Load.Plain
import MapTables.Proofs.Store.Replay
import Mathlib.Data.List.Forall2

/-!
# Loads side by side

A load comes to nothing but what its store answers it: another store that gives the same
answers is asked the same, and the two loads end alike. Lines may differ, and watchers may
be told other percentages as long as they take no notice. Documents may differ in their faults,
as long as these are of the same kind.
-/

namespace MapTables

variable {σ τ S T α β α' β' : Type}

/-- Two results with values in `R`, or two faults in `F`. -/
inductive EndsAlike (F : LoadFault → LoadFault → Prop) (R : α → β → Prop) :
    Except LoadFault α → Except LoadFault β → Prop
  | ok {a : α} {b : β} (h : R a b) : EndsAlike F R (.ok a) (.ok b)
  | error {f f' : LoadFault} (h : F f f') : EndsAlike F R (.error f) (.error f')

theorem EndsAlike.eq {r r' : Except LoadFault α} (h : EndsAlike Eq Eq r r') : r' = r := by
  cases h with
  | ok h => rw [h]
  | error h => rw [h]

theorem EndsAlike.error_of {F : LoadFault → LoadFault → Prop} {R : α → β → Prop}
    {r : Except LoadFault α} {r' : Except LoadFault β} (h : EndsAlike F R r r') {f : LoadFault}
    (hf : r' = .error f) : ∃ f', r = .error f' := by
  cases h with
  | ok h => cases hf
  | error h => exact ⟨_, rfl⟩

/-- Two kinds of states, the one around a store whose calls are written down, the other around
another store, when two of them agree in all but their stores, and which faults are alike. -/
structure Bond (σ τ S T : Type) where
  log : S → Logged σ
  store : T → τ
  agree : S → T → Prop
  partner : ∀ s, ∃ t, agree s t
  faults : LoadFault → LoadFault → Prop
  faults_refl : Std.Refl faults

variable [Store σ] [Store τ]

/-- Where the other store answers what `x` asks as it was written down, `y` ends as `x` does, with
a value in `R` to that of `x`. -/
structure FollowsIn (R : α → β → Prop) (B : Bond σ τ S T) (x : ExceptT LoadFault (StateM S) α)
    (y : ExceptT LoadFault (StateM T) β) : Prop where
  moves : ∀ s, (B.log s).Moves (B.log (x s).2)
  alike : ∀ s t new t', B.agree s t → (B.log (x s).2).calls = (B.log s).calls ++ new →
    Answers (B.store t) new t' →
    EndsAlike B.faults R (x s).1 (y t).1 ∧ B.agree (x s).2 (y t).2 ∧ B.store (y t).2 = t'

abbrev Follows (B : Bond σ τ S T) (x : ExceptT LoadFault (StateM S) α)
    (y : ExceptT LoadFault (StateM T) α) : Prop :=
  FollowsIn Eq B x y

theorem FollowsIn.bind_in {R : α → β → Prop} {R' : α' → β' → Prop} {B : Bond σ τ S T}
    {x : ExceptT LoadFault (StateM S) α} {y : ExceptT LoadFault (StateM T) β}
    {f : α → ExceptT LoadFault (StateM S) α'} {g : β → ExceptT LoadFault (StateM T) β'}
    (hx : FollowsIn R B x y) (total : ∀ a, ∃ b, R a b)
    (hf : ∀ a b, R a b → FollowsIn R' B (f a) (g b)) : FollowsIn R' B (x >>= f) (y >>= g) := by
  have hmoves (a : α) (u : S) : (B.log u).Moves (B.log (f a u).2) := by
    obtain ⟨b, hab⟩ := total a
    exact (hf a b hab).moves u
  constructor
  · intro s
    have hm := hx.moves s
    rw [bind_run]
    rcases hxs : (x s : Except LoadFault α × S) with ⟨e | a, u⟩
    · rw [hxs] at hm
      exact hm
    · rw [hxs] at hm
      exact hm.trans (hmoves a u)
  · intro s t new t' ha hc hs
    have hm := hx.moves s
    rw [bind_run] at hc
    rw [bind_run, bind_run]
    rcases hxs : (x s : Except LoadFault α × S) with ⟨e | a, u⟩
    · rw [hxs] at hc
      have hy := hx.alike s t new t' ha (by rw [hxs]; exact hc) hs
      rw [hxs] at hy
      rcases hyt : (y t : Except LoadFault β × T) with ⟨e' | b, v⟩
      · rw [hyt] at hy
        obtain ⟨he, hv⟩ := hy
        cases he with
        | error he => exact ⟨.error he, hv⟩
      · rw [hyt] at hy
        cases hy.1
    · rw [hxs] at hc hm
      -- What is asked in `x` comes first, so the other store answers that first.
      obtain ⟨front, hfront, -⟩ := hm
      obtain ⟨back, hback, -⟩ := hmoves a u
      simp only at hc hfront
      rw [hback, hfront, List.append_assoc] at hc
      obtain rfl := List.append_cancel_left hc
      obtain ⟨v', hf1, hf2⟩ := hs.of_append
      have hy := hx.alike s t front v' ha (by rw [hxs]; exact hfront) hf1
      rw [hxs] at hy
      rcases hyt : (y t : Except LoadFault β × T) with ⟨e' | b, v⟩
      · rw [hyt] at hy
        cases hy.1
      · rw [hyt] at hy
        obtain ⟨he, hv, rfl⟩ := hy
        cases he with
        | ok hab => exact (hf a b hab).alike u v back t' hv hback hf2

namespace FollowsIn

variable {B : Bond σ τ S T}

theorem of_silent {R : α → β → Prop} {x : ExceptT LoadFault (StateM S) α}
    {y : ExceptT LoadFault (StateM T) β} (hx : ∀ s, B.log (x s).2 = B.log s)
    (hy : ∀ t, B.store (y t).2 = B.store t)
    (h : ∀ s t, B.agree s t → EndsAlike B.faults R (x s).1 (y t).1 ∧ B.agree (x s).2 (y t).2) :
    FollowsIn R B x y := by
  refine ⟨fun s => (hx s).symm ▸ Logged.Moves.refl _, fun s t new t' ha hc hs => ?_⟩
  rw [hx] at hc
  obtain rfl := List.self_eq_append_right.mp hc
  cases hs
  exact ⟨(h s t ha).1, (h s t ha).2, hy t⟩

theorem pure_in {R : α → β → Prop} {a : α} {b : β} (h : R a b) :
    FollowsIn R B (pure a : ExceptT LoadFault (StateM S) α)
      (pure b : ExceptT LoadFault (StateM T) β) :=
  of_silent (fun _ => rfl) (fun _ => rfl) fun _ _ ha => ⟨.ok h, ha⟩

theorem pure {a : α} : Follows B (pure a : ExceptT LoadFault (StateM S) α)
    (pure a : ExceptT LoadFault (StateM T) α) :=
  pure_in rfl

theorem throw_alike {f f' : LoadFault} (h : B.faults f f') :
    Follows B (throw f : ExceptT LoadFault (StateM S) α)
      (throw f' : ExceptT LoadFault (StateM T) α) :=
  of_silent (fun _ => rfl) (fun _ => rfl) fun _ _ ha => ⟨.error h, ha⟩

theorem throw {f : LoadFault} : Follows B (throw f : ExceptT LoadFault (StateM S) α)
    (throw f : ExceptT LoadFault (StateM T) α) :=
  throw_alike (B.faults_refl.refl f)

theorem modify {f : S → S} {g : T → T} (hf : ∀ s, B.log (f s) = B.log s)
    (hg : ∀ t, B.store (g t) = B.store t) (h : ∀ s t, B.agree s t → B.agree (f s) (g t)) :
    Follows B (modify f : ExceptT LoadFault (StateM S) PUnit)
      (modify g : ExceptT LoadFault (StateM T) PUnit) :=
  of_silent hf hg fun s t ha => ⟨.ok rfl, h s t ha⟩

theorem bind {R : α' → β' → Prop} {x : ExceptT LoadFault (StateM S) α}
    {y : ExceptT LoadFault (StateM T) α} {f : α → ExceptT LoadFault (StateM S) α'}
    {g : α → ExceptT LoadFault (StateM T) β'} (hx : Follows B x y)
    (hf : ∀ a, FollowsIn R B (f a) (g a)) : FollowsIn R B (x >>= f) (y >>= g) :=
  hx.bind_in (fun a => ⟨a, rfl⟩) fun a _ hab => hab ▸ hf a

theorem get_bind {f : S → ExceptT LoadFault (StateM S) β}
    {g : T → ExceptT LoadFault (StateM T) β}
    (h : ∀ s t, B.agree s t → Follows B (f s) (g t)) : Follows B (get >>= f) (get >>= g) := by
  constructor
  · intro s
    obtain ⟨t, ht⟩ := B.partner s
    exact (h s t ht).moves s
  · intro s t new t' ha hc hs
    exact (h s t ha).alike s t new t' ha hc hs

theorem forM {I : α → β → Prop} {f : α → ExceptT LoadFault (StateM S) PUnit}
    {g : β → ExceptT LoadFault (StateM T) PUnit} {l : List α} {m : List β}
    (hl : List.Forall₂ I l m) (h : ∀ a b, I a b → Follows B (f a) (g b)) :
    Follows B (l.forM f) (m.forM g) := by
  induction hl with
  | nil => exact .pure
  | cons hab _ ih => exact .bind (h _ _ hab) fun _ => ih

theorem forM_same {f : α → ExceptT LoadFault (StateM S) PUnit}
    {g : α → ExceptT LoadFault (StateM T) PUnit}
    (l : List α) (h : ∀ a, Follows B (f a) (g a)) : Follows B (l.forM f) (l.forM g) := by
  refine forM (I := Eq) (List.forall₂_refl l) fun a b hab => ?_
  subst hab
  exact h a

end FollowsIn

/-! ## The writer's part -/

namespace Writing

variable [Nonempty τ] {F : LoadFault → LoadFault → Prop} [Std.Refl F]

def bond (σ τ : Type) [Nonempty τ] (F : LoadFault → LoadFault → Prop) [refl : Std.Refl F] :
    Bond σ τ (Writing (Logged σ)) (Writing τ) where
  log := Writing.store
  store := Writing.store
  agree s t := t.writer = s.writer
  partner s := ⟨⟨s.writer, Classical.ofNonempty, #[]⟩, rfl⟩
  faults := F
  faults_refl := refl

theorem sayAll_follows (lines lines' : Journal) :
    Follows (bond σ τ F) (sayAll lines) (sayAll lines') :=
  .modify (fun _ => rfl) (fun _ => rfl) fun _ _ h => h

theorem enqueue_follows (rows : List Placed) : Follows (bond σ τ F) (enqueue rows) (enqueue rows) :=
  .modify (fun _ => rfl) (fun _ => rfl) fun s t h => by
    obtain ⟨w, st, lines⟩ := s
    obtain ⟨w', st', lines'⟩ := t
    exact congrArg (rows.foldl Writer.enqueue) h

theorem discard_follows : Follows (bond σ τ F) discard discard := by
  refine .get_bind fun s t h => ?_
  simp only
  rw [show t.writer = s.writer from h]
  exact .bind (.modify (fun _ => rfl) (fun _ => rfl) fun _ _ _ => rfl)
    fun _ => .pure

theorem reply_follows (r : Request) : Follows (bond σ τ F) (reply r) (reply r) := by
  constructor
  · exact fun s => Logged.Moves.ask r s.store
  · intro s t new t' ha hc hs
    obtain rfl := List.append_cancel_left hc
    cases hs with
    | cons answer rest =>
      cases rest
      refine ⟨?_, ha, ?_⟩
      · exact .ok (congrArg Prod.fst answer).symm
      · exact congrArg Prod.snd answer

theorem ask_follows (r : Request) (fault : StoreFault → LoadFault) :
    Follows (bond σ τ F) (ask r fault) (ask r fault) := by
  refine .bind (reply_follows r) fun a => ?_
  cases a with
  | ok a => exact .pure
  | error f => exact .throw

theorem flush_follows (k : TableKind) : Follows (bond σ τ F) (flush k) (flush k) := by
  refine .get_bind fun s t h => ?_
  simp only
  rw [show t.writer = s.writer from h]
  refine .bind (ask_follows _ _) fun stored => ?_
  refine .bind (ask_follows _ _) fun _ => .bind (ask_follows _ _) fun _ => ?_
  refine .bind (sayAll_follows _ _) fun _ => ?_
  exact .modify (fun _ => rfl) (fun _ => rfl) fun s t h => congrArg (Writer.settle · k stored) h

theorem flushIfDue_follows (k : TableKind) :
    Follows (bond σ τ F) (flushIfDue k) (flushIfDue k) := by
  refine .get_bind fun s t h => ?_
  rw [show t.writer = s.writer from h]
  split
  · exact .bind (flush_follows k) fun _ => .pure
  · exact .pure

theorem poll_follows : Follows (bond σ τ F) poll poll :=
  .forM_same _ fun k => .bind (flushIfDue_follows k) fun _ => .pure

theorem flushAll_follows : Follows (bond σ τ F) flushAll flushAll := by
  refine .forM_same _ fun k => .get_bind fun s t h => ?_
  rw [show t.writer = s.writer from h]
  split
  · exact .pure
  · exact flush_follows k

end Writing

/-! ## The load's part -/

/-- How far two watchers go together, each with its monitor. They let the same events pass, and
what each is told of the progress keeps it so. -/
structure Unison (ω ω' : Type) [Watcher ω] [Watcher ω'] (gauge gauge' : Gauge)
    (D : Nat → Nat → Prop) where
  agree : Monitor → ω → Monitor → ω' → Prop
  partner : ∀ m w, ∃ m' w', agree m w m' w'
  poll : ∀ m w m' w', agree m w m' w' →
    (Watcher.poll w').1 = (Watcher.poll w).1 ∧ agree m (Watcher.poll w).2 m' (Watcher.poll w').2
  count : ∀ m w m' w' n n', D n n' → agree m w m' w' →
    agree (m.featureClosed gauge n w).monitor (m.featureClosed gauge n w).watcher
      (m'.featureClosed gauge' n' w').monitor (m'.featureClosed gauge' n' w').watcher
  finish : ∀ m w m' w', agree m w m' w' → agree m (m.finish w).1 m' (m'.finish w').1

namespace Load

variable {ω ω' : Type} [Watcher ω] [Watcher ω'] {gauge gauge' : Gauge} {D : Nat → Nat → Prop}
  {F : LoadFault → LoadFault → Prop} [Std.Refl F] [Nonempty τ]

/-- Two loads that agree in all but their stores, lines and phases. -/
structure Agree (U : Unison ω ω' gauge gauge' D) (l : Load (Logged σ) ω) (l' : Load τ ω') :
    Prop where
  writer : l'.writing.writer = l.writing.writer
  assembler : l'.assembler = l.assembler
  watched : U.agree l.monitor l.watcher l'.monitor l'.watcher

omit [Store σ] [Store τ] [Nonempty τ] in
theorem Agree.dataset {U : Unison ω ω' gauge gauge' D} {l : Load (Logged σ) ω} {l' : Load τ ω'}
    (h : Agree U l l') : l'.writing.writer.dataset = l.writing.writer.dataset :=
  congrArg Writer.dataset h.writer

def bond (σ τ : Type) [Nonempty τ] (U : Unison ω ω' gauge gauge' D)
    (F : LoadFault → LoadFault → Prop) [refl : Std.Refl F] :
    Bond σ τ (Load (Logged σ) ω) (Load τ ω') where
  log l := l.writing.store
  store l := l.writing.store
  agree := Agree U
  partner l := by
    obtain ⟨m, w, h⟩ := U.partner l.monitor l.watcher
    exact ⟨⟨⟨l.writing.writer, Classical.ofNonempty, #[]⟩, m, w, l.assembler, .unopened⟩,
      rfl, rfl, h⟩
  faults := F
  faults_refl := refl

variable (U : Unison ω ω' gauge gauge' D)

theorem byWriter_follows {x : WritingM (Logged σ) α} {y : WritingM τ α}
    (h : Follows (Writing.bond σ τ F) x y) : Follows (bond σ τ U F) (byWriter x) (byWriter y) := by
  constructor
  · exact fun l => h.moves l.writing
  · intro l l' new t' ha hc hs
    obtain ⟨hr, hw, ht⟩ := h.alike l.writing l'.writing new t' ha.writer hc hs
    exact ⟨hr, ⟨hw, ha.assembler, ha.watched⟩, ht⟩

theorem sayAll_follows (lines lines' : Journal) :
    Follows (bond σ τ U F) (sayAll lines) (sayAll lines') :=
  byWriter_follows U (Writing.sayAll_follows lines lines')

theorem enter_follows (phase : Phase) : Follows (bond σ τ U F) (enter phase) (enter phase) :=
  .get_bind fun _ _ _ => .bind (sayAll_follows U _ _) fun _ =>
    .modify (fun _ => rfl) (fun _ => rfl) fun _ _ h => ⟨h.writer, h.assembler, h.watched⟩

theorem isCancelled_follows : Follows (bond σ τ U F) isCancelled isCancelled :=
  .of_silent (fun _ => rfl) (fun _ => rfl) fun _ _ h =>
    have hp := U.poll _ _ _ _ h.watched
    ⟨.ok hp.1.symm, h.writer, h.assembler, hp.2⟩

theorem assemble_follows {e e' : Event} (same : ∀ s : Assembler, s.step e' = s.step e) :
    Follows (bond σ τ U F) (assemble e) (assemble e') := by
  rw [assemble_eq, assemble_eq]
  refine .get_bind fun l l' h => ?_
  rw [h.assembler, same]
  cases l.assembler.step e with
  | error f => exact .throw
  | ok s =>
    refine .bind (sayAll_follows U _ _) fun _ => .bind ?_ fun _ => ?_
    · exact .modify (fun _ => rfl) (fun _ => rfl) fun _ _ h => ⟨h.writer, rfl, h.watched⟩
    · exact .bind (byWriter_follows U (Writing.enqueue_follows _)) fun _ => .pure

theorem cancel_follows : Follows (bond σ τ U F) cancel cancel :=
  .bind (byWriter_follows U Writing.discard_follows) fun _ =>
    .bind (sayAll_follows U _ _) fun _ => .throw

theorem count_follows {n n' : Nat} (hn : D n n') :
    Follows (bond σ τ U F) (count gauge n) (count gauge' n') :=
  .of_silent (fun _ => rfl) (fun _ => rfl) fun _ _ h =>
    ⟨.ok rfl, h.writer, h.assembler, U.count _ _ _ _ n n' hn h.watched⟩

theorem countLast_follows : Follows (bond σ τ U F) countLast countLast :=
  .of_silent (fun _ => rfl) (fun _ => rfl) fun _ _ h =>
    ⟨.ok rfl, h.writer, h.assembler, U.finish _ _ _ _ h.watched⟩

theorem takeEvent_follows {n n' : Nat} (hn : D n n') {e e' : Event}
    (opens : e'.opensFeature = e.opensFeature) (same : ∀ s : Assembler, s.step e' = s.step e) :
    Follows (bond σ τ U F) (takeEvent gauge n e) (takeEvent gauge' n' e') := by
  have passed : Follows (bond σ τ U F) (passEvent gauge n e) (passEvent gauge' n' e') := by
    refine .bind (assemble_follows U same) fun change => ?_
    cases change with
    | closed k =>
      exact .bind (byWriter_follows U Writing.poll_follows) fun _ => count_follows U hn
    | _ => exact .pure
  unfold takeEvent
  simp only [opens]
  split
  · refine .bind (isCancelled_follows U) fun stop => ?_
    cases stop with
    | true => exact .bind (cancel_follows U) fun _ => passed
    | false => exact passed
  · exact passed

structure Item.Alike (D : Nat → Nat → Prop) (i i' : Item) : Prop where
  what : i'.what = i.what
  drawn : D i.drawn i'.drawn

inductive Item.Akin (F : LoadFault → LoadFault → Prop) (D : Nat → Nat → Prop) : Item → Item → Prop
  | event {e : Event} {p p' n n' : Nat} (drawn : D n n') : Akin F D ⟨.ok e, p, n⟩ ⟨.ok e, p', n'⟩
  | fault {f f' : ReadFault} {p p' n n' : Nat} (h : F (.unreadable f) (.unreadable f')) :
      Akin F D ⟨.error f, p, n⟩ ⟨.error f', p', n'⟩

theorem Item.Alike.akin {i i' : Item} (h : Item.Alike D i i') : Item.Akin F D i i' := by
  obtain ⟨what, p, n⟩ := i
  obtain ⟨what', p', n'⟩ := i'
  obtain ⟨hw, drawn⟩ := h
  obtain rfl : what' = what := hw
  cases what' with
  | error f => exact .fault (Std.Refl.refl _)
  | ok e => exact .event drawn

theorem take_follows {i i' : Item} (h : Item.Akin F D i i') :
    Follows (bond σ τ U F) (take gauge i) (take gauge' i') := by
  cases h with
  | fault h => exact .throw_alike h
  | event drawn => exact takeEvent_follows U drawn rfl fun _ => rfl

theorem drain_follows : Follows (bond σ τ U F) drain drain := by
  refine .get_bind fun l l' h => ?_
  rw [h.assembler]
  cases l.assembler.finish with
  | error f => exact .throw
  | ok counts =>
    refine .bind (enter_follows U _) fun _ => ?_
    exact .bind (byWriter_follows U Writing.flushAll_follows) fun _ =>
      .bind (countLast_follows U) fun _ => .pure

/-- Two loads take the same way through their documents if they do so item by item. -/
theorem consume_follows {items items' : List Item} (h : List.Forall₂
      (fun i i' => Follows (bond σ τ U F) (take gauge i) (take gauge' i')) items items') :
    Follows (bond σ τ U F) (consume gauge items) (consume gauge' items') := by
  refine .bind (enter_follows U _) fun _ => ?_
  exact .bind (.forM h fun _ _ hi => hi) fun _ => drain_follows U

/-! ## Opening and closing -/

theorem ask_follows (r : Request) (fault : StoreFault → LoadFault) :
    Follows (bond σ τ U F) (ask r fault) (ask r fault) :=
  byWriter_follows U (Writing.ask_follows r fault)

theorem openTables_follows (drop : Bool) :
    Follows (bond σ τ U F) (openTables drop) (openTables drop) := by
  have dropped : Follows (bond σ τ U F) dropTables dropTables := by
    refine .get_bind fun _ _ h => ?_
    rw [h.dataset]
    exact .forM_same _ fun _ => ask_follows U _ _
  have checked : Follows (bond σ τ U F) checkTables checkTables := by
    refine .get_bind fun _ _ h => ?_
    rw [h.dataset]
    refine .forM_same _ fun table => .bind (ask_follows U (.tableExists table) _) fun found => ?_
    cases found with
    | true => exact .throw
    | false => exact .pure
  have created : Follows (bond σ τ U F) createTables createTables := by
    refine .get_bind fun _ _ h => ?_
    rw [h.dataset]
    exact .forM_same _ fun _ => ask_follows U _ _
  have made := checked.bind fun _ => created.bind fun _ =>
    ask_follows U .beginTransaction (.refused .beginTransaction)
  cases drop with
  | true => exact .bind dropped fun _ => made
  | false => exact made

theorem rollback_follows : Follows (bond σ τ U F) rollback rollback := by
  refine .bind (byWriter_follows U (Writing.reply_follows _)) fun a => ?_
  cases a with
  | ok _ => exact .pure
  | error f => exact sayAll_follows U _ _

theorem endsAlike_total (r : Except LoadFault α) : ∃ r', EndsAlike F (Eq : α → α → Prop) r r' := by
  cases r with
  | error f => exact ⟨_, .error (Std.Refl.refl f)⟩
  | ok a => exact ⟨_, .ok rfl⟩

theorem settle_follows {r r' : Except LoadFault Counts} (h : EndsAlike F Eq r r') :
    FollowsIn (EndsAlike F Eq) (bond σ τ U F) (settle r) (settle r') := by
  cases h with
  | error h => exact .bind (rollback_follows U) fun _ => .pure_in (.error h)
  | ok h =>
    subst h
    refine .bind (byWriter_follows U (Writing.reply_follows .commit)) fun a => ?_
    cases a with
    | ok _ => exact .pure_in (.ok rfl)
    | error f =>
      exact .bind (rollback_follows U) fun _ => .pure_in (.error (Std.Refl.refl _))

theorem close_follows {r r' : Except LoadFault Counts} (h : EndsAlike F Eq r r') :
    Follows (bond σ τ U F) (close r) (close r') := by
  refine .bind (enter_follows U _) fun _ =>
    (settle_follows U h).bind_in endsAlike_total fun settled settled' hs => ?_
  refine .bind (byWriter_follows U (Writing.reply_follows .release)) fun released => ?_
  cases hs with
  | ok hs =>
    subst hs
    cases released with
    | ok _ =>
      refine .get_bind fun l l' h => ?_
      rw [h.writer]
      exact .pure
    | error f => exact .throw
  | error hs =>
    cases released with
    | ok _ => exact .throw_alike hs
    | error f => exact .bind (sayAll_follows U _ _) fun _ => .throw_alike hs

theorem attempt_follows {x : LoadM (Logged σ) ω α} {y : LoadM τ ω' α}
    (h : Follows (bond σ τ U F) x y) :
    FollowsIn (EndsAlike F Eq) (bond σ τ U F) (attempt x) (attempt y) := by
  constructor
  · exact fun l => h.moves l
  · intro l l' new t' ha hc hs
    obtain ⟨hr, he⟩ := h.alike l l' new t' ha hc hs
    exact ⟨.ok hr, he⟩

theorem run_follows (drop : Bool) {items items' : List Item} (h : List.Forall₂
      (fun i i' => Follows (bond σ τ U F) (take gauge i) (take gauge' i')) items items') :
    Follows (bond σ τ U F) (run drop gauge items) (run drop gauge' items') := by
  refine (attempt_follows U (.bind (openTables_follows U drop) fun _ =>
    consume_follows U h)).bind_in endsAlike_total fun result result' hr => ?_
  exact .bind (close_follows U hr) fun _ => .bind (sayAll_follows U _ _) fun _ => .pure

end Load

/-! ## Whole loads -/

/-- Two inputs yield documents that say the same, or none for the same reason. -/
def Input.Alike (D : Nat → Nat → Prop) (label : Option String) (i i' : Input) : Prop :=
  (∃ f, i.items label = .error f ∧ i'.items label = .error f) ∨
    ∃ items items', i.items label = .ok items ∧ i'.items label = .ok items' ∧
      List.Forall₂ (Load.Item.Alike D) items items'

/-- Two inputs, each under its label, yield documents with the same events and faults in `F`, or
none for the same reason. -/
def Input.Akin (F : LoadFault → LoadFault → Prop) (D : Nat → Nat → Prop)
    (i : Input) (label : Option String) (i' : Input) (label' : Option String) : Prop :=
  (∃ f, i.items label = .error f ∧ i'.items label' = .error f) ∨
    ∃ items items', i.items label = .ok items ∧ i'.items label' = .ok items' ∧
      List.Forall₂ (Load.Item.Akin F D) items items'

theorem Input.Alike.akin {F : LoadFault → LoadFault → Prop} [Std.Refl F] {D : Nat → Nat → Prop}
    {label : Option String} {i i' : Input} (h : i.Alike D label i') :
    i.Akin F D label i' label := by
  refine h.imp_right fun ⟨items, items', hi, hi', hall⟩ => ?_
  exact ⟨items, items', hi, hi', hall.imp fun _ _ h => h.akin⟩

/-- Two loads open their tables and keep back their rows in the same way. -/
structure Options.StoreAlike (o o' : Options) : Prop where
  batchSize : o'.batchSize = o.batchSize
  dropExisting : o'.dropExisting = o.dropExisting

theorem Options.StoreAlike.refl (o : Options) : o.StoreAlike o := ⟨rfl, rfl⟩

def Unison.same (ω : Type) [Watcher ω] (gauge : Gauge) : Unison ω ω gauge gauge Eq where
  agree m w m' w' := m = m' ∧ w = w'
  partner m w := ⟨m, w, rfl, rfl⟩
  poll := by
    rintro m w _ _ ⟨rfl, rfl⟩
    exact ⟨rfl, rfl, rfl⟩
  count := by
    rintro m w _ _ n _ rfl ⟨rfl, rfl⟩
    exact ⟨rfl, rfl⟩
  finish := by
    rintro m w _ _ ⟨rfl, rfl⟩
    exact ⟨rfl, rfl⟩

theorem Input.alike_self (i : Input) (label : Option String) : i.Alike Eq label i := by
  cases hi : i.items label with
  | error f => exact Or.inl ⟨f, hi, hi⟩
  | ok items =>
    exact Or.inr ⟨items, items, hi, hi, List.forall₂_same.mpr fun _ _ => ⟨rfl, rfl⟩⟩

structure Outcome.Alike {σ τ ω ω' : Type} (x : Outcome σ ω) (y : Outcome τ ω') : Prop where
  result : y.result = x.result
  counts : y.counts = x.counts

variable {ω ω' : Type} [Watcher ω] [Watcher ω']

/-- Two loads leave their watchers as these go together, each with the monitor that asked so often
how much was drawn. -/
def Unison.Left {gauge gauge' : Gauge} {D : Nat → Nat → Prop} (U : Unison ω ω' gauge gauge' D)
    {σ τ : Type} (x : Outcome σ ω) (y : Outcome τ ω') : Prop :=
  ∃ m m', m.asked = x.asked ∧ m'.asked = y.asked ∧ U.agree m x.watcher m' y.watcher

/-- Two inputs, each under its options, yield documents such that a load of the second one follows
the one of the first, or none for the same reason. -/
def Input.Followed (σ τ : Type) [Store σ] [Store τ] [Nonempty τ] (F : LoadFault → LoadFault → Prop)
    [Std.Refl F] {D : Nat → Nat → Prop} {i i' : Input} (U : Unison ω ω' i.gauge i'.gauge D)
    (o o' : Options) : Prop :=
  (∃ f, i.items o.encoding = .error f ∧ i'.items o'.encoding = .error f) ∨
    ∃ items items', i.items o.encoding = .ok items ∧ i'.items o'.encoding = .ok items' ∧
      Follows (Load.bond σ τ U F) (Load.run o.dropExisting i.gauge items)
        (Load.run o'.dropExisting i'.gauge items')

theorem Input.Akin.followed [Nonempty τ] {F : LoadFault → LoadFault → Prop} [Std.Refl F]
    {D : Nat → Nat → Prop} {i i' : Input} {o o' : Options}
    (h : i.Akin F D o.encoding i' o'.encoding) (U : Unison ω ω' i.gauge i'.gauge D)
    (ho : o.StoreAlike o') : Input.Followed σ τ F U o o' := by
  refine h.imp_right fun ⟨items, items', hi, hi', hall⟩ => ⟨items, items', hi, hi', ?_⟩
  rw [ho.dropExisting]
  exact Load.run_follows U o.dropExisting (hall.imp fun _ _ => Load.take_follows U)

/-- What a load asks is written down as its store answers it. Another store that answers the same
is left as these answers leave it, and another load that follows this one ends alike. -/
theorem load_followed_along [Nonempty τ] {F : LoadFault → LoadFault → Prop} [Std.Refl F]
    {D : Nat → Nat → Prop} {i i' : Input} {o o' : Options} (U : Unison ω ω' i.gauge i'.gauge D)
    (hi : Input.Followed σ τ F U o o') (ho : o.StoreAlike o') {w : ω} {w' : ω'}
    (hw : U.agree (.ofTotal i.total o.averageFeature) w (.ofTotal i'.total o'.averageFeature) w')
    (s : σ) (t : τ) (base : String) (x : Outcome (Logged σ) ω)
    (hx : load i (Logged.mk s []) base w o = x) :
    Answers s x.store.calls x.store.store ∧ ∀ t', Answers t x.store.calls t' →
      EndsAlike F Eq x.result (load i' t base w' o').result ∧
      (load i' t base w' o').counts = x.counts ∧ (load i' t base w' o').store = t' ∧
      U.Left x (load i' t base w' o') := by
  -- A load that does not begin asks nothing.
  have unasked (f : LoadFault)
      (hl : load i (Logged.mk s []) base w o =
        { result := .error f, store := ⟨s, []⟩, watcher := w })
      (hr : load i' t base w' o' = { result := .error f, store := t, watcher := w' }) :
      Answers s x.store.calls x.store.store ∧ ∀ t', Answers t x.store.calls t' →
        EndsAlike F Eq x.result (load i' t base w' o').result ∧
        (load i' t base w' o').counts = x.counts ∧ (load i' t base w' o').store = t' ∧
        U.Left x (load i' t base w' o') := by
    rw [← hx, hl]
    refine ⟨.nil, fun t' ht => ?_⟩
    cases ht
    rw [hr]
    exact ⟨.error (Std.Refl.refl f), rfl, rfl, _, _, rfl, rfl, hw⟩
  cases hd : Dataset.ofBase base with
  | error f =>
    refine unasked (.refused .validateNames (.invalidName base f)) ?_ ?_
    all_goals rw [load, hd]
  | ok d =>
    obtain rfl := Dataset.base_of_ofBase hd
    rcases hi with ⟨f, hf, hf'⟩ | ⟨items, items', hok, hok', hrun⟩
    · exact unasked _ (load_of_unread hf _ d w) (load_of_unread hf' _ d w')
    · obtain ⟨lines, hl⟩ := load_of_items hok (Logged.mk s []) d w
      obtain ⟨lines', hr⟩ := load_of_items hok' t d w'
      rw [← hx, hl]
      obtain ⟨new, hc, ha⟩ := hrun.moves (.initial d i (Logged.mk s []) w o lines)
      have hnew : (Load.run o.dropExisting i.gauge items
          (.initial d i (Logged.mk s []) w o lines)).2.writing.store.calls = new := hc
      refine ⟨by rw [← hnew] at ha; exact ha, fun t' ht => ?_⟩
      have ht' : Answers t new t' := by
        rw [← hnew]
        exact ht
      have hstart : Load.Agree U (.initial d i (Logged.mk s []) w o lines)
          (.initial d i' t w' o' lines') := by
        refine ⟨?_, rfl, hw⟩
        simp only [Load.initial, ho.batchSize]
      obtain ⟨hresult, hagree, hstore⟩ := hrun.alike _ _ new t' hstart hc ht'
      rw [hr]
      exact ⟨hresult, congrArg Assembler.counts hagree.assembler, hstore, _, _, rfl, rfl,
        hagree.watched⟩

theorem load_along {F : LoadFault → LoadFault → Prop} [Std.Refl F] {D : Nat → Nat → Prop}
    {i i' : Input} {o o' : Options} (U : Unison ω ω' i.gauge i'.gauge D)
    (hi : i.Akin F D o.encoding i' o'.encoding) (ho : o.StoreAlike o') {w : ω} {w' : ω'}
    (hw : U.agree (.ofTotal i.total o.averageFeature) w (.ofTotal i'.total o'.averageFeature) w')
    (s : σ) (t : τ) (base : String) (x : Outcome (Logged σ) ω)
    (hx : load i (Logged.mk s []) base w o = x) :
    Answers s x.store.calls x.store.store ∧ ∀ t', Answers t x.store.calls t' →
      EndsAlike F Eq x.result (load i' t base w' o').result ∧
      (load i' t base w' o').counts = x.counts ∧ (load i' t base w' o').store = t' ∧
      U.Left x (load i' t base w' o') :=
  have : Nonempty τ := ⟨t⟩
  load_followed_along U (hi.followed U ho) ho hw s t base x hx

theorem load_beside {D : Nat → Nat → Prop} {i i' : Input} {options : Options}
    (U : Unison ω ω' i.gauge i'.gauge D) (hi : i.Alike D options.encoding i') {w : ω} {w' : ω'}
    (hw : U.agree (.ofTotal i.total options.averageFeature) w
      (.ofTotal i'.total options.averageFeature) w') (s : σ) (t : τ) (base : String)
    (x : Outcome (Logged σ) ω) (hx : load i (Logged.mk s []) base w options = x) :
    Answers s x.store.calls x.store.store ∧ ∀ t', Answers t x.store.calls t' →
      x.Alike (load i' t base w' options) ∧ (load i' t base w' options).store = t' := by
  obtain ⟨answers, along⟩ := load_along (F := Eq) U hi.akin (.refl options) hw s t base x hx
  refine ⟨answers, fun t' ht => ?_⟩
  obtain ⟨hresult, hcounts, hstore, -⟩ := along t' ht
  exact ⟨⟨hresult.eq, hcounts⟩, hstore⟩

theorem load_answered (i : Input) (s : σ) (t : τ) (base : String) (w : ω) (options : Options) :
    let x := load i (Logged.mk s []) base w options
    Answers s x.store.calls x.store.store ∧ ∀ t', Answers t x.store.calls t' →
      x.Alike (load i t base w options) ∧ (load i t base w options).store = t' :=
  load_beside (Unison.same ω i.gauge) (i.alike_self options.encoding) ⟨rfl, rfl⟩ s t base _ rfl

theorem load_followed [Nonempty σ] {F : LoadFault → LoadFault → Prop} [Std.Refl F]
    {D : Nat → Nat → Prop} {i i' : Input} {o o' : Options} (U : Unison ω ω' i.gauge i'.gauge D)
    (hi : Input.Followed σ σ F U o o') (ho : o.StoreAlike o') {w : ω} {w' : ω'}
    (hw : U.agree (.ofTotal i.total o.averageFeature) w (.ofTotal i'.total o'.averageFeature) w')
    (s : σ) (base : String) :
    let x := load i s base w o
    let y := load i' s base w' o'
    EndsAlike F Eq x.result y.result ∧ y.counts = x.counts ∧ y.store = x.store ∧ U.Left x y := by
  intro x y
  -- The first load goes along with itself when its calls are written down.
  obtain ⟨answers, self⟩ := load_along (F := Eq) (Unison.same ω i.gauge)
    (i.alike_self o.encoding).akin (.refl o) ⟨rfl, rfl⟩ s s base _ (rfl : _ = load _ _ base w o)
  obtain ⟨likeSelf, hself, hstoreSelf, m, m', hm, hm', rfl, hwatcher⟩ := self _ answers
  obtain ⟨hresult, hcounts, hstore, n, n', hn, hn', left⟩ :=
    (load_followed_along U hi ho hw s s base _ rfl).2 _ answers
  rw [← likeSelf.eq] at hresult
  refine ⟨hresult, hcounts.trans hself.symm, hstore.trans hstoreSelf.symm, n, n', ?_, hn', ?_⟩
  · exact hn.trans (hm.symm.trans hm')
  · rw [hwatcher] at left
    exact left

theorem load_akin {F : LoadFault → LoadFault → Prop} [Std.Refl F] {D : Nat → Nat → Prop}
    {i i' : Input} {o o' : Options} (U : Unison ω ω' i.gauge i'.gauge D)
    (hi : i.Akin F D o.encoding i' o'.encoding) (ho : o.StoreAlike o') {w : ω} {w' : ω'}
    (hw : U.agree (.ofTotal i.total o.averageFeature) w (.ofTotal i'.total o'.averageFeature) w')
    (s : σ) (base : String) :
    let x := load i s base w o
    let y := load i' s base w' o'
    EndsAlike F Eq x.result y.result ∧ y.counts = x.counts ∧ y.store = x.store ∧ U.Left x y :=
  have : Nonempty σ := ⟨s⟩
  load_followed U (hi.followed U ho) ho hw s base

end MapTables
