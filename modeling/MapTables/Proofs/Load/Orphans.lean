import MapTables.Proofs.Assembly.Owners
import MapTables.Proofs.Load.Sent

/-!
# Rows without an owner

Where a load goes well each row that it sent belongs to a feature whose own row it sent as
well. The exception are members of a relation that was given up before its end.
-/

namespace MapTables

theorem SentAll.owned {input : Input} {label : Option String} {items : List Item} {counts : Counts}
    {calls : List Call} (h : SentAll items counts calls) (hi : input.items label = .ok items) :
    ∃ R, Owned (input.events label) R ∧ ∀ k, sentTo k calls = rowsFor k R := by
  obtain ⟨R, hp, hs⟩ := h
  obtain ⟨a, ht, hn, -⟩ := assembled_eq_ok.mp hp
  refine ⟨R, ?_, hs⟩
  unfold Input.events
  rw [hi]
  exact Assembler.owned_of_run (Assembler.run_of_takeAll ht) hn

/-- Rows of accepted events have their owners, up to the members of relations that were given up,
and so have the rows that a load sends when it goes well. -/
theorem load_leaves_no_orphans {σ ω : Type} [Store σ] [Watcher ω] (input : Input) (s : σ)
    (base : String) (w : ω) (options : Options) (es : List Event) :
    (∀ a R counts, ({} : Assembler).run es = .ok (a, R) → a.finish = .ok counts → Owned es R) ∧
    ∀ report, (load input (Logged.mk s []) base w options).result = .ok report →
      ∃ R, Owned (input.events options.encoding) R ∧
        ∀ k, sentTo k (load input (Logged.mk s []) base w options).store.calls = rowsFor k R := by
  constructor
  · intro a R counts hr hf
    exact Assembler.owned_of_run hr (Assembler.finish_eq_ok.mp hf).1
  · intro report hr
    cases hd : Dataset.ofBase base with
    | error f =>
      rw [load, hd] at hr
      cases hr
    | ok d =>
      obtain rfl := Dataset.base_of_ofBase hd
      cases hi : input.items options.encoding with
      | error f =>
        rw [load_of_unread hi] at hr
        cases hr
      | ok items => exact ((load_sends hi s d w).2 report hr).owned hi

theorem load_leaves_no_orphans_of_tour :
    let tour : List Event := [
      .start .relation [("id", "1")], .start .tag [("k", "type"), ("v", "route")], .close .tag,
      .start .member [("type", "node"), ("ref", "5")], .close .member, .close .relation]
    let outcome := load (.ofText "<way id=\"7\"><nd ref=\"5\"/></way>") (Logged.mk ({} : Memory) [])
      "city" Unwatched.mk {}
    Owned tour [
      (.nodeMember, .member ⟨1, 5, .node, none, 1⟩), (.relation, .relation { id := 1 }),
      (.relationTag, .tag ⟨1, "type", "route"⟩)] ∧
    ∃ R, Owned [.start .way [("id", "7")], .start .nodeRef [("ref", "5")], .close .nodeRef,
        .close .way] R ∧
      ∀ k, sentTo k outcome.store.calls = rowsFor k R := by
  intro tour outcome
  have h := load_leaves_no_orphans (.ofText "<way id=\"7\"><nd ref=\"5\"/></way>") ({} : Memory)
    "city" Unwatched.mk {} tour
  have hevents : (Input.ofText "<way id=\"7\"><nd ref=\"5\"/></way>").events none =
      [.start .way [("id", "7")], .start .nodeRef [("ref", "5")], .close .nodeRef,
        .close .way] := by
    decide +kernel
  have hok : outcome.result.isOk = true := by decide +kernel
  refine ⟨h.1 _ _ _ rfl rfl, ?_⟩
  rw [← hevents]
  cases hr : outcome.result with
  | error f =>
    rw [hr] at hok
    cases hok
  | ok report => exact h.2 report hr

/-- A relation that is replaced while it is open leaves the row of its member without an owner. -/
theorem member_outlives_replaced_relation :
    let es : List Event := [
      .start .relation [("id", "1")], .start .member [("type", "node"), ("ref", "5")],
      .close .member, .start .relation [("id", "2")], .close .relation]
    let R : List Placed := [
      (.nodeMember, .member ⟨1, 5, .node, none, 1⟩), (.relation, .relation { id := 2 })]
    ∃ a, ({} : Assembler).run es = .ok (a, R) ∧
      a.finish = .ok { relations := 1, members := 1 } ∧ ¬ HasRowOf .relation 1 R :=
  ⟨_, rfl, rfl, by decide⟩

end MapTables
