import MapTables.Proofs.Load.Protocol

/-!
# The course of a load

What happens in a load, in the order of the program: names are checked, the input is opened, the
store and the watcher are asked, items are read and events assembled. Each of these passes or
fails. The first that fails ends the load, which then takes back what is not final and lets the
store go.
-/

namespace MapTables

inductive Moment where
  /-- The base name is checked. -/
  | named
  /-- The encoding is told and the document opened. -/
  | opened
  | asked (c : Call)
  | read (i : Item)
  | polled (stop : Bool)
  | assembled (e : Event)
  | finished

namespace Moment

def call? : Moment → Option Call
  | .asked c => some c
  | _ => none

def answer? : Moment → Option Bool
  | .polled stop => some stop
  | _ => none

end Moment

def callsOf (trace : List Moment) : List Call := trace.filterMap Moment.call?

def answersOf (trace : List Moment) : List Bool := trace.filterMap Moment.answer?

inductive Stage where
  | start (base : String) (document : Except ReadFault (List Item))
  | named (d : Dataset) (document : Except ReadFault (List Item))
  /-- These requests come before the document is read. -/
  | opening (requests : List Request) (items : List Item)
  | reading (a : Assembler) (items : List Item)
  /-- An event that opens a feature was read. -/
  | heard (a : Assembler) (e : Event) (items : List Item)
  /-- The event that was read may be assembled. -/
  | cleared (a : Assembler) (e : Event) (items : List Item)
  | closed (a : Assembler) (items : List Item)
  | draining
  /-- A flush of the table has stored its batch. -/
  | inserted (table : String) (back : Stage)
  | committed (table : String) (back : Stage)
  /-- All is final. -/
  | settled
  | ended

namespace Stage

/-- The assembler and the items that are left, where the next one may be read. -/
def unread : Stage → Option (Assembler × List Item)
  | .opening [] items => some ({}, items)
  | .reading a items | .closed a items => some (a, items)
  | _ => none

def flushes : Stage → Bool
  | .closed .. | .draining => true
  | _ => false

/-- What is asked of the store when the load fails here. -/
def ending : Stage → List Request
  | .start .. | .named .. | .settled => []
  | _ => [.rollback, .release]

def hear (a : Assembler) (e : Event) (items : List Item) : Stage :=
  if e.opensFeature then .heard a e items else .cleared a e items

def follow (s : Step) (items : List Item) : Stage :=
  match s.change with
  | .closed _ => .closed s.next items
  | _ => .reading s.next items

/-- What passes, and where that leads. -/
inductive Passes (drop : Bool) : Stage → Moment → Stage → Prop
  | named {base : String} {document : Except ReadFault (List Item)} {d : Dataset}
      (h : Dataset.ofBase base = .ok d) : Passes drop (.start base document) .named (.named d document)
  | opened {d : Dataset} {items : List Item} :
      Passes drop (.named d (.ok items)) .opened (.opening (openingRequests d drop) items)
  | opening {c : Call} {requests : List Request} {items : List Item} (h : c.passes = true) :
      Passes drop (.opening (c.request :: requests) items) (.asked c) (.opening requests items)
  | read {s : Stage} {a : Assembler} {i : Item} {items : List Item} {e : Event}
      (hs : s.unread = some (a, i :: items)) (hi : i.what = .ok e) :
      Passes drop s (.read i) (hear a e items)
  | polled {a : Assembler} {e : Event} {items : List Item} :
      Passes drop (.heard a e items) (.polled false) (.cleared a e items)
  | assembled {a : Assembler} {e : Event} {items : List Item} {t : Step} (h : a.step e = .ok t) :
      Passes drop (.cleared a e items) (.assembled e) (follow t items)
  | finished {s : Stage} {a : Assembler} {counts : Counts} (hs : s.unread = some (a, []))
      (h : a.finish = .ok counts) : Passes drop s .finished .draining
  | inserted {s : Stage} {k : TableKind} {table : String} {rows : List Row} {stored : Stored}
      (hs : s.flushes = true) :
      Passes drop s (.asked ⟨.insert k table rows, .ok stored⟩) (.inserted table s)
  | committed {table : String} {s : Stage} :
      Passes drop (.inserted table s) (.asked ⟨.commit, .ok ()⟩) (.committed table s)
  | begun {table : String} {s : Stage} :
      Passes drop (.committed table s) (.asked ⟨.beginTransaction, .ok ()⟩) s
  | settled : Passes drop .draining (.asked ⟨.commit, .ok ()⟩) .settled
  | released : Passes drop .settled (.asked ⟨.release, .ok ()⟩) .ended

inductive Fails : Stage → Moment → LoadFault → Prop
  | unnamed {base : String} {document : Except ReadFault (List Item)} {f : NameFault}
      (h : Dataset.ofBase base = .error f) :
      Fails (.start base document) .named (.refused .validateNames (.invalidName base f))
  | unopened {d : Dataset} {f : ReadFault} : Fails (.named d (.error f)) .opened (.unreadable f)
  | dropping {table : String} {requests : List Request} {items : List Item} {f : StoreFault} :
      Fails (.opening (.dropTable table :: requests) items)
        (.asked ⟨.dropTable table, .error f⟩) (.refused .dropTable f)
  | lookingUp {table : String} {requests : List Request} {items : List Item} {f : StoreFault} :
      Fails (.opening (.tableExists table :: requests) items)
        (.asked ⟨.tableExists table, .error f⟩) (.refused .lookUpTables f)
  | found {table : String} {requests : List Request} {items : List Item} :
      Fails (.opening (.tableExists table :: requests) items)
        (.asked ⟨.tableExists table, .ok true⟩) (.tableExists table)
  | creating {k : TableKind} {table : String} {requests : List Request} {items : List Item}
      {f : StoreFault} : Fails (.opening (.createTable k table :: requests) items)
        (.asked ⟨.createTable k table, .error f⟩) (.refused .createTable f)
  | beginning {requests : List Request} {items : List Item} {f : StoreFault} :
      Fails (.opening (.beginTransaction :: requests) items)
        (.asked ⟨.beginTransaction, .error f⟩) (.refused .beginTransaction f)
  | unread {s : Stage} {a : Assembler} {i : Item} {items : List Item} {f : ReadFault}
      (hs : s.unread = some (a, i :: items)) (hi : i.what = .error f) :
      Fails s (.read i) (.unreadable f)
  | cancelled {a : Assembler} {e : Event} {items : List Item} :
      Fails (.heard a e items) (.polled true) .cancelled
  | misplaced {a : Assembler} {e : Event} {items : List Item} {f : AssemblyFault}
      (h : a.step e = .error f) : Fails (.cleared a e items) (.assembled e) (.malformed f)
  | unfinished {s : Stage} {a : Assembler} {f : AssemblyFault} (hs : s.unread = some (a, []))
      (h : a.finish = .error f) : Fails s .finished (.malformed f)
  | inserting {s : Stage} {k : TableKind} {table : String} {rows : List Row} {f : StoreFault}
      (hs : s.flushes = true) :
      Fails s (.asked ⟨.insert k table rows, .error f⟩) (.notWritten table f)
  | committing {table : String} {s : Stage} {f : StoreFault} :
      Fails (.inserted table s) (.asked ⟨.commit, .error f⟩) (.notWritten table f)
  | resuming {table : String} {s : Stage} {f : StoreFault} :
      Fails (.committed table s) (.asked ⟨.beginTransaction, .error f⟩) (.notWritten table f)
  | settling {f : StoreFault} : Fails .draining (.asked ⟨.commit, .error f⟩) (.refused .commit f)
  | releasing {f : StoreFault} : Fails .settled (.asked ⟨.release, .error f⟩) (.notReleased f)

inductive Leads (drop : Bool) (s : Stage) : List Moment → Stage → Prop
  | start : Leads drop s [] s
  | pass {trace : List Moment} {t u : Stage} {m : Moment} (h : Leads drop s trace t)
      (passes : t.Passes drop m u) : Leads drop s (trace ++ [m]) u

end Stage

/-- What happens from a stage to the end of the load, and the fault that it ends with. The answers
to the last requests do not matter. -/
inductive Course (drop : Bool) (s : Stage) : List Moment → Option LoadFault → Prop
  | ended {trace : List Moment} (h : s.Leads drop trace .ended) : Course drop s trace none
  | failed {trace : List Moment} {t : Stage} {m : Moment} {f : LoadFault} {ends : List Call}
      (h : s.Leads drop trace t) (fails : t.Fails m f) (he : ends.map Call.request = t.ending) :
      Course drop s (trace ++ m :: ends.map .asked) (some f)

theorem callsOf_append (l l' : List Moment) : callsOf (l ++ l') = callsOf l ++ callsOf l' :=
  List.filterMap_append

theorem answersOf_append (l l' : List Moment) : answersOf (l ++ l') = answersOf l ++ answersOf l' :=
  List.filterMap_append

theorem callsOf_asked (calls : List Call) : callsOf (calls.map .asked) = calls := by
  unfold callsOf
  rw [List.filterMap_map]
  exact List.filterMap_some

theorem answersOf_asked (calls : List Call) : answersOf (calls.map .asked) = [] := by
  unfold answersOf
  rw [List.filterMap_map]
  exact List.filterMap_eq_nil_iff.mpr fun _ _ => rfl

/-! ## What a stage tells -/

/-- All is as it should be: the name, each call, the watcher and the document. -/
structure Faultless (base : String) (document : Except ReadFault (List Item)) (calls : List Call)
    (answers : List Bool) : Prop where
  named : ∃ d, Dataset.ofBase base = .ok d
  granted : ∀ c ∈ calls, c.passes = true
  kept : true ∉ answers
  assembled : ∃ items r, document = .ok items ∧ MapTables.assembled items = .ok r

namespace Stage

variable {drop : Bool} {base : String} {document : Except ReadFault (List Item)} {s t : Stage}
  {m : Moment} {trace : List Moment}

/-- The base name and the document are right as far as a load has come. -/
def Tells (base : String) (document : Except ReadFault (List Item)) : Stage → Prop
  | .start b doc => b = base ∧ doc = document
  | .named d doc => Dataset.ofBase base = .ok d ∧ doc = document
  | .opening _ items => (∃ d, Dataset.ofBase base = .ok d) ∧ document = .ok items
  | .reading a items | .closed a items => (∃ d, Dataset.ofBase base = .ok d) ∧
      ∃ seen R, document = .ok (seen ++ items) ∧ ({} : Assembler).takeAll seen = .ok (a, R)
  | .heard a e items | .cleared a e items => (∃ d, Dataset.ofBase base = .ok d) ∧
      ∃ seen i R, document = .ok (seen ++ i :: items) ∧ i.what = .ok e ∧
        ({} : Assembler).takeAll seen = .ok (a, R)
  | .draining | .settled | .ended => (∃ d, Dataset.ofBase base = .ok d) ∧
      ∃ items r, document = .ok items ∧ assembled items = .ok r
  | .inserted _ back | .committed _ back => back.Tells base document

theorem Tells.of_unread {a : Assembler} {items : List Item} (h : s.Tells base document)
    (hs : s.unread = some (a, items)) : (∃ d, Dataset.ofBase base = .ok d) ∧
      ∃ seen R, document = .ok (seen ++ items) ∧ ({} : Assembler).takeAll seen = .ok (a, R) := by
  unfold unread at hs
  split at hs
  · cases hs
    exact ⟨h.1, [], [], h.2, rfl⟩
  · cases hs
    exact h
  · cases hs
    exact h
  · cases hs

theorem Passes.tells (h : s.Passes drop m t) (hs : s.Tells base document) :
    t.Tells base document := by
  cases h with
  | named h =>
    obtain ⟨rfl, rfl⟩ := hs
    exact ⟨h, rfl⟩
  | opened => exact ⟨⟨_, hs.1⟩, hs.2.symm⟩
  | opening _ => exact hs
  | read h hi =>
    obtain ⟨hd, seen, R, hdoc, ht⟩ := hs.of_unread h
    unfold hear
    split <;> exact ⟨hd, seen, _, R, hdoc, hi, ht⟩
  | polled => exact hs
  | @assembled a e items t h =>
    obtain ⟨hd, seen, i, R, hdoc, hi, ht⟩ := hs
    have hdoc : document = .ok ((seen ++ [i]) ++ items) := by rw [hdoc, List.append_assoc]; rfl
    have ht := Assembler.takeAll_concat ht hi h
    unfold follow
    split <;> exact ⟨hd, _, _, hdoc, ht⟩
  | finished h hf =>
    obtain ⟨hd, seen, R, hdoc, ht⟩ := hs.of_unread h
    rw [List.append_nil] at hdoc
    exact ⟨hd, seen, _, hdoc, assembled_eq_ok.mpr ⟨_, ht, Assembler.finish_eq_ok.mp hf⟩⟩
  | inserted _ => exact hs
  | committed => exact hs
  | begun => exact hs
  | settled => exact hs
  | released => exact hs

theorem Leads.tells (h : Leads drop (.start base document) trace t) : t.Tells base document := by
  induction h with
  | start => exact ⟨rfl, rfl⟩
  | pass _ passes ih => exact passes.tells ih

theorem Passes.good (h : s.Passes drop m t) :
    (∀ c, m.call? = some c → c.passes = true) ∧ m.answer? ≠ some true := by
  cases h with
  | opening h => exact ⟨fun c hc => Option.some.inj hc ▸ h, nofun⟩
  | inserted _ => exact ⟨fun c hc => Option.some.inj hc ▸ rfl, nofun⟩
  | committed => exact ⟨fun c hc => Option.some.inj hc ▸ rfl, nofun⟩
  | begun => exact ⟨fun c hc => Option.some.inj hc ▸ rfl, nofun⟩
  | settled => exact ⟨fun c hc => Option.some.inj hc ▸ rfl, nofun⟩
  | released => exact ⟨fun c hc => Option.some.inj hc ▸ rfl, nofun⟩
  | polled => exact ⟨nofun, by simp [Moment.answer?]⟩
  | _ => exact ⟨nofun, nofun⟩

theorem Leads.good (h : s.Leads drop trace t) :
    (∀ c ∈ callsOf trace, c.passes = true) ∧ true ∉ answersOf trace := by
  induction h with
  | start => exact ⟨nofun, nofun⟩
  | pass _ passes ih =>
    obtain ⟨hcall, hanswer⟩ := passes.good
    rw [callsOf_append, answersOf_append]
    simp only [List.mem_append]
    refine ⟨fun c hc => hc.elim (ih.1 c) fun hc => ?_, fun ha => ha.elim ih.2 fun ha => ?_⟩
    · obtain ⟨_, hm, hc⟩ := List.mem_filterMap.mp hc
      exact hcall c (List.mem_singleton.mp hm ▸ hc)
    · obtain ⟨_, hm, ha⟩ := List.mem_filterMap.mp ha
      exact hanswer (List.mem_singleton.mp hm ▸ ha)

theorem Fails.not_faultless {f : LoadFault} {calls : List Call} {answers : List Bool} (h : s.Fails m f)
    (hs : s.Tells base document) (hcall : ∀ c, m.call? = some c → c ∈ calls)
    (hanswer : ∀ a, m.answer? = some a → a ∈ answers) : ¬ Faultless base document calls answers := by
  rintro ⟨⟨d, hd⟩, granted, kept, items, r, hdoc, hr⟩
  have refused (c : Call) (hc : m.call? = some c) (hp : c.passes = false) : False := by
    rw [granted c (hcall c hc)] at hp
    cases hp
  cases h with
  | unnamed h =>
    obtain ⟨rfl, -⟩ := hs
    rw [hd] at h
    cases h
  | unopened =>
    obtain ⟨-, rfl⟩ := hs
    cases hdoc
  | unread hu hi =>
    obtain ⟨-, seen, R, hseen, ht⟩ := hs.of_unread hu
    cases hseen.symm.trans hdoc
    obtain ⟨a, ht', -⟩ := assembled_eq_ok.mp hr
    rw [Assembler.takeAll_of_unreadable ht hi] at ht'
    cases ht'
  | cancelled => exact kept (hanswer true rfl)
  | misplaced h =>
    obtain ⟨-, seen, i, R, hseen, hi, ht⟩ := hs
    cases hseen.symm.trans hdoc
    obtain ⟨a, ht', -⟩ := assembled_eq_ok.mp hr
    rw [Assembler.takeAll_of_malformed ht hi h] at ht'
    cases ht'
  | unfinished hu h =>
    obtain ⟨-, seen, R, hseen, ht⟩ := hs.of_unread hu
    rw [List.append_nil] at hseen
    cases hseen.symm.trans hdoc
    obtain ⟨a, ht', hf⟩ := assembled_eq_ok.mp hr
    rw [ht] at ht'
    cases ht'
    rw [Assembler.finish_eq_ok.mpr hf] at h
    cases h
  | _ => exact refused _ rfl rfl

/-- While the tables are made the requests so far and those that are left are all of them. -/
def Asks (base : String) (drop : Bool) (calls : List Call) : Stage → Prop
  | .start b _ => b = base ∧ calls = []
  | .named d _ => Dataset.ofBase base = .ok d ∧ calls = []
  | .opening requests _ => ∃ d, Dataset.ofBase base = .ok d ∧
      calls.map Call.request ++ requests = openingRequests d drop
  | .inserted _ back | .committed _ back => back.flushes = true
  | _ => True

theorem asks_of_flushes {calls : List Call} (h : s.flushes = true) : s.Asks base drop calls := by
  cases s with
  | closed _ _ => exact trivial
  | draining => exact trivial
  | _ => cases h

theorem Leads.asks (h : Leads drop (.start base document) trace t) :
    t.Asks base drop (callsOf trace) := by
  induction h with
  | start => exact ⟨rfl, rfl⟩
  | pass _ passes ih =>
    rw [callsOf_append]
    cases passes with
    | named h =>
      obtain ⟨rfl, hc⟩ := ih
      rw [hc]
      exact ⟨h, rfl⟩
    | opened =>
      rw [ih.2]
      exact ⟨_, ih.1, rfl⟩
    | opening _ =>
      obtain ⟨d, hd, hr⟩ := ih
      refine ⟨d, hd, ?_⟩
      rw [List.map_append, List.append_assoc]
      exact hr
    | read _ _ =>
      unfold hear
      split <;> exact trivial
    | polled => exact trivial
    | assembled _ =>
      unfold follow
      split <;> exact trivial
    | finished _ _ => exact trivial
    | inserted hs => exact hs
    | committed => exact ih
    | begun => exact asks_of_flushes ih
    | settled => exact trivial
    | released => exact trivial

end Stage

open Stage in
/-- A load comes to no fault just if all is as it should be. -/
theorem Course.eq_none_iff {drop : Bool} {base : String} {document : Except ReadFault (List Item)}
    {trace : List Moment} {fault : Option LoadFault}
    (h : Course drop (.start base document) trace fault) :
    fault = none ↔ Faultless base document (callsOf trace) (answersOf trace) := by
  cases h with
  | ended h => exact iff_of_true rfl ⟨h.tells.1, h.good.1, h.good.2, h.tells.2⟩
  | @failed trace t m f ends h fails he =>
    refine iff_of_false nofun (fails.not_faultless h.tells ?_ ?_)
    · exact fun c hc => List.mem_filterMap.mpr ⟨m, by simp, hc⟩
    · exact fun a ha => List.mem_filterMap.mpr ⟨m, by simp, ha⟩

variable {drop : Bool} {base : String} {document : Except ReadFault (List Item)}
  {trace : List Moment}

theorem Course.of_found {table : String}
    (h : Course drop (.start base document) trace (some (.tableExists table))) :
    ∃ before after, callsOf trace = before ++ ⟨.tableExists table, .ok true⟩ :: after ∧
      (∀ c ∈ before, c.passes = true) ∧ ∃ d, Dataset.ofBase base = .ok d ∧
        before.map Call.request ++ [.tableExists table] <+: openingRequests d drop := by
  cases h with
  | @failed trace t m f ends h fails he =>
    cases fails
    obtain ⟨d, hd, hr⟩ := h.asks
    refine ⟨callsOf trace, ends, ?_, h.good.1, d, hd, ?_⟩
    · rw [callsOf_append]
      exact congrArg (callsOf trace ++ ⟨.tableExists table, .ok true⟩ :: ·) (callsOf_asked ends)
    · rw [← hr, List.prefix_append_right_inj]
      exact List.cons_prefix_cons.mpr ⟨rfl, List.nil_prefix⟩

theorem Course.of_unreleased {f : StoreFault}
    (h : Course drop (.start base document) trace (some (.notReleased f))) :
    ∃ before, callsOf trace = before ++ [⟨.release, .error f⟩] ∧
      Faultless base document before (answersOf trace) := by
  cases h with
  | @failed trace t m f ends h fails he =>
    cases fails
    obtain rfl := List.map_eq_nil_iff.mp he
    refine ⟨callsOf trace, callsOf_append _ _, h.tells.1, h.good.1, ?_, h.tells.2⟩
    rw [answersOf_append]
    exact fun ha => (List.mem_append.mp ha).elim h.good.2 nofun

end MapTables
