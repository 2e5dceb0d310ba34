import Mathlib.Data.List.Infix
import MapTables.Folder.Prepare
import MapTables.Proofs.Fallible

/-!
# Folders that are made ready

After the folder of a path has been made ready it is there, nothing else than folders is new, and
doing so again changes nothing. A folder that is there is refused just if the path climbs above the
place where it starts.
-/

namespace MapTables

/-! ## Paths that stay below their start -/

/-- No part of a path from its start takes more steps up than down. -/
def Path.StaysBelow (steps : List Component) : Prop :=
  ∀ front, front <+: steps → 2 * front.count .up ≤ front.length

instance (steps : List Component) : Decidable (Path.StaysBelow steps) :=
  decidable_of_iff (∀ front ∈ steps.inits, 2 * front.count .up ≤ front.length)
    (by simp only [List.mem_inits, Path.StaysBelow])

namespace Tree

variable {φ : Type} {t t' t'' : Tree φ} {inside : Option Location} {base place : Location}
  {steps : List Component} {c : Component}

/-! ## Walks -/

theorem walk_concat (hc : c.hasNull = false) : t.walk inside base (steps ++ [c]) =
    t.walk inside base steps >>= fun above => t.step inside above c := by
  unfold walk
  rw [List.any_append, List.foldlM_append]
  cases steps.any Component.hasNull
  · simp only [List.any_cons, hc, List.any_nil, Bool.or_self, Bool.false_eq_true, if_false,
      List.foldlM_cons, List.foldlM_nil, bind_pure]
  · rfl

theorem walk_concat_eq_ok : t.walk inside base (steps ++ [c]) = .ok place ↔
    ∃ above, t.walk inside base steps = .ok above ∧ c.hasNull = false ∧
      t.step inside above c = .ok place := by
  cases hc : c.hasNull
  · simp [walk_concat hc, bind_eq_ok]
  · unfold walk
    simp [hc]

theorem step_up_eq_ok : t.step inside base .up = .ok place ↔
    t.isFolder base ∧ inside ≠ some base ∧ base.dropLast = place := by
  unfold step
  cases t.isFolder base
  · simp
  · by_cases h : inside = some base <;> simp [h]

theorem step_name_eq_ok {name : String} : t.step inside base (.name name) = .ok place ↔
    t.isFolder base ∧ checkName name = .ok () ∧ (t.get? (base ++ [name])).isSome ∧
      base ++ [name] = place := by
  unfold step
  cases t.isFolder base
  · simp
  · cases hn : checkName name
    · simp [hn, bind, Except.bind]
    · by_cases hg : (t.get? (base ++ [name])).isSome <;> simp [hn, hg, bind, Except.bind]

theorem step_name_ne_outside {name : String} :
    t.step inside base (.name name) ≠ .error .outside := by
  unfold step checkName
  cases t.isFolder base
  · simp
  · by_cases hn : longestName < name.utf8ByteSize
    · simp [hn, bind, Except.bind]
    · by_cases hg : (t.get? (base ++ [name])).isSome <;> simp [hn, hg, bind, Except.bind]

/-! ## Trees that grow -/

/-- Nothing but folders is new. -/
def GrownFrom (t' t : Tree φ) : Prop :=
  ∀ place, t'.get? place = t.get? place ∨ t.get? place = none ∧ t'.get? place = some .folder

theorem GrownFrom.refl (t : Tree φ) : t.GrownFrom t := fun _ => .inl rfl

theorem GrownFrom.trans (h : t''.GrownFrom t') (h' : t'.GrownFrom t) : t''.GrownFrom t := by
  intro place
  rcases h place with h | ⟨h, hn⟩
  · rw [h]
    exact h' place
  · rcases h' place with h' | ⟨h', -⟩
    · exact .inr ⟨h' ▸ h, hn⟩
    · exact .inr ⟨h', hn⟩

theorem GrownFrom.isFolder (h : t'.GrownFrom t) (hf : t.isFolder place) : t'.isFolder place := by
  unfold Tree.isFolder at hf ⊢
  rcases h place with h | ⟨h, -⟩
  · rwa [h]
  · rw [h] at hf
    cases hf

theorem GrownFrom.isSome (h : t'.GrownFrom t) (hs : (t.get? place).isSome) :
    (t'.get? place).isSome := by
  rcases h place with h | ⟨h, -⟩
  · rwa [h]
  · rw [h] at hs
    cases hs

/-- A walk in a tree can be taken in a tree grown from it, and without a limit. -/
theorem GrownFrom.walk (h : t'.GrownFrom t) (hw : t.walk inside base steps = .ok place) :
    t'.walk inside base steps = .ok place ∧ t'.walk none base steps = .ok place := by
  induction steps using List.reverseRecOn generalizing place with
  | nil => exact ⟨hw, hw⟩
  | append_singleton steps c ih =>
    obtain ⟨above, ha, hc, hs⟩ := walk_concat_eq_ok.mp hw
    have stepped : t'.step inside above c = .ok place ∧ t'.step none above c = .ok place := by
      cases c with
      | up =>
        obtain ⟨hf, hi, hp⟩ := step_up_eq_ok.mp hs
        have hf := h.isFolder hf
        exact ⟨step_up_eq_ok.mpr ⟨hf, hi, hp⟩, step_up_eq_ok.mpr ⟨hf, (Option.some_ne_none _).symm, hp⟩⟩
      | name name =>
        obtain ⟨hf, hn, hg, hp⟩ := step_name_eq_ok.mp hs
        have hf := h.isFolder hf
        have hg := h.isSome hg
        exact ⟨step_name_eq_ok.mpr ⟨hf, hn, hg, hp⟩, step_name_eq_ok.mpr ⟨hf, hn, hg, hp⟩⟩
    exact ⟨walk_concat_eq_ok.mpr ⟨above, (ih ha).1, hc, stepped.1⟩,
      walk_concat_eq_ok.mpr ⟨above, (ih ha).2, hc, stepped.2⟩⟩

theorem grownFrom_add (hne : place ≠ []) (h : t.get? place = none) :
    (t.add place .folder).GrownFrom t := by
  intro other
  rw [get?_add t place other .folder hne]
  split
  · next ho => exact .inr ⟨ho ▸ h, rfl⟩
  · exact .inl rfl

/-! ## Making one folder -/

theorem leadsToFolder_iff : t.leadsToFolder base steps ↔
    ∃ place, t.walk (some base) base steps = .ok place ∧ t.isFolder place := by
  unfold leadsToFolder
  cases t.walk (some base) base steps <;> simp

def makeBelow (t : Tree φ) (above : Location) (name : String) : Except FolderFault (Tree φ) := do
  if Component.hasNull (.name name) then .error .nullCharacter
  if !t.isFolder above then .error .notAFolder
  checkName name
  if (t.get? (above ++ [name])).isSome then .error .alreadyExists
  return t.add (above ++ [name]) .folder

theorem makeFolder_name (name : String) : t.makeFolder base (steps ++ [.name name]) =
    t.walk (some base) base steps >>= fun above => t.makeBelow above name := by
  unfold makeFolder makeBelow
  simp only [List.getLast?_append, List.getLast?_singleton, Option.some_or, List.dropLast_concat]

theorem makeBelow_eq_ok {above : Location} {name : String} : t.makeBelow above name = .ok t' ↔
    (Component.name name).hasNull = false ∧ t.isFolder above ∧ checkName name = .ok () ∧
      t.get? (above ++ [name]) = none ∧ t.add (above ++ [name]) .folder = t' := by
  unfold makeBelow
  cases (Component.name name).hasNull
  · cases t.isFolder above
    · simp [bind, Except.bind]
    · cases checkName name
      · simp [bind, Except.bind]
      · cases t.get? (above ++ [name]) <;> simp [bind, Except.bind, pure, Except.pure]
  · simp [bind, Except.bind]

theorem makeFolder_nameless (h : ∀ front name, steps ≠ front ++ [.name name]) :
    t.makeFolder base steps = t.walk (some base) base steps >>= fun place =>
      .error (if t.isFolder place then .alreadyExists else .notAFolder) := by
  unfold makeFolder
  split
  · next name hl =>
    obtain ⟨front, rfl⟩ := List.getLast?_eq_some_iff.mp hl
    exact absurd rfl (h front name)
  · cases t.walk (some base) base steps with
    | error fault => rfl
    | ok place => cases hf : t.isFolder place <;> simp [bind, Except.bind, hf]

theorem named_or_nameless (steps : List Component) : (∃ front name, steps = front ++ [.name name]) ∨
    ∀ front name, steps ≠ front ++ [.name name] := by
  rcases Classical.em (∃ front name, steps = front ++ [Component.name name]) with h | h
  · exact .inl h
  · exact .inr fun front name he => h ⟨front, name, he⟩

theorem makeFolder_ok (h : t.makeFolder base steps = .ok t') :
    t'.GrownFrom t ∧ t'.leadsToFolder base steps := by
  rcases named_or_nameless steps with ⟨front, name, rfl⟩ | nameless
  · rw [makeFolder_name, bind_eq_ok] at h
    obtain ⟨above, ha, h⟩ := h
    obtain ⟨hc, hf, hn, hg, rfl⟩ := makeBelow_eq_ok.mp h
    have below : above ++ [name] ≠ [] := List.append_ne_nil_of_right_ne_nil _ (List.cons_ne_nil _ _)
    have grown := grownFrom_add below hg
    have placed : (t.add (above ++ [name]) .folder).get? (above ++ [name]) = some .folder := by
      rw [get?_add _ _ _ _ below, if_pos rfl]
    refine ⟨grown, leadsToFolder_iff.mpr ⟨above ++ [name], walk_concat_eq_ok.mpr
      ⟨above, (grown.walk ha).1, hc, step_name_eq_ok.mpr ⟨grown.isFolder hf, hn, ?_, rfl⟩⟩, ?_⟩⟩
    · rw [placed]
      rfl
    · unfold isFolder
      rw [placed]
  · rw [makeFolder_nameless nameless, bind_eq_ok] at h
    obtain ⟨place, -, h⟩ := h
    cases h

theorem makeFolder_of_leads (h : t.leadsToFolder base steps) :
    t.makeFolder base steps = .error .alreadyExists := by
  obtain ⟨place, hw, hf⟩ := leadsToFolder_iff.mp h
  rcases named_or_nameless steps with ⟨front, name, rfl⟩ | nameless
  · obtain ⟨above, ha, hc, hs⟩ := walk_concat_eq_ok.mp hw
    obtain ⟨hd, hn, hg, rfl⟩ := step_name_eq_ok.mp hs
    rw [makeFolder_name, ha]
    simp [makeBelow, hc, hd, hn, hg, bind, Except.bind]
  · rw [makeFolder_nameless nameless, hw]
    simp [bind, Except.bind, hf]

theorem makeFolder_of_outside (h : t.walk (some base) base steps = .error .outside) :
    t.makeFolder base steps = .error .outside := by
  rcases named_or_nameless steps with ⟨front, name, rfl⟩ | nameless
  · cases hc : (Component.name name).hasNull
    · rw [walk_concat hc] at h
      rw [makeFolder_name]
      cases hw : t.walk (some base) base front with
      | error fault =>
        rw [hw] at h
        cases h
        rfl
      | ok above =>
        rw [hw] at h
        have stepped : t.step (some base) above (.name name) = .error .outside := h
        exact absurd stepped step_name_ne_outside
    · unfold walk at h
      simp [hc] at h
  · rw [makeFolder_nameless nameless, h]
    rfl

/-! ## Making folders -/

theorem leadsToFolder_nil (h : t.isFolder base) : t.leadsToFolder base [] :=
  leadsToFolder_iff.mpr ⟨base, rfl, h⟩

theorem makeFolders_of_leads (h : t.leadsToFolder base steps) :
    t.makeFolders base steps = (.ok (), t) := by
  cases steps with
  | nil => unfold makeFolders; rfl
  | cons step steps =>
    unfold makeFolders
    simp only [makeFolder_of_leads h, orThere, h, if_true]

theorem makeFolders_of_outside (h : t.walk (some base) base steps = .error .outside) :
    t.makeFolders base steps = (.error .outside, t) := by
  have unled : t.leadsToFolder base steps = false := by
    unfold leadsToFolder
    rw [h]
  cases steps with
  | nil => cases h
  | cons step steps =>
    unfold makeFolders
    simp only [makeFolder_of_outside h, orThere, unled, Bool.false_eq_true, if_false]

theorem orThere_spec (t : Tree φ) (base : Location) (steps : List Component) (fault : FolderFault) :
    Ending (fun _ t' => t' = t ∧ t.leadsToFolder base steps) (fun _ t' => t' = t)
      (t.orThere base steps fault) := by
  unfold orThere
  split
  · next h => exact ⟨rfl, h⟩
  · rfl

/-- Nothing but folders is new, whatever comes of it; if all went well, the steps lead to a
folder. -/
theorem makeFolders_spec (t : Tree φ) (base : Location) (steps : List Component)
    (h : t.isFolder base) :
    Ending (fun _ t' => t'.GrownFrom t ∧ t'.leadsToFolder base steps) (fun _ t' => t'.GrownFrom t)
      (t.makeFolders base steps) := by
  fun_induction makeFolders t base steps with
  | case1 => exact ⟨.refl _, leadsToFolder_nil h⟩
  | case2 step steps steps' t' made => exact makeFolder_ok made
  | case3 step steps steps' missing fault t' above ih =>
    rw [above] at ih
    exact ih
  | case4 step steps steps' missing t' above t'' made ih =>
    rw [above] at ih
    obtain ⟨grown, leads⟩ := makeFolder_ok made
    exact ⟨grown.trans ih.1, leads⟩
  | case5 step steps steps' missing t' above fault refused ih =>
    rw [above] at ih
    refine (orThere_spec t' base _ fault).imp ?_ ?_
    · rintro _ _ ⟨rfl, leads⟩
      exact ⟨ih.1, leads⟩
    · rintro _ _ rfl
      exact ih.1
  | case6 step steps steps' fault other refused =>
    refine (orThere_spec t base _ fault).imp ?_ ?_
    · rintro _ _ ⟨rfl, leads⟩
      exact ⟨.refl _, leads⟩
    · rintro _ _ rfl
      exact .refl _

/-! ## Walks that lead out -/

/-- A walk from a place that does not climb above it stays below that place, as deep as it took more
steps down than up. -/
theorem walk_of_staysBelow (h : t.walk none base steps = .ok place) (hs : Path.StaysBelow steps) :
    t.walk (some base) base steps = .ok place ∧
      ∃ below, place = base ++ below ∧ below.length + 2 * steps.count .up = steps.length := by
  induction steps using List.reverseRecOn generalizing place with
  | nil =>
    cases h
    exact ⟨rfl, [], (List.append_nil _).symm, rfl⟩
  | append_singleton steps c ih =>
    obtain ⟨above, ha, hc, hstep⟩ := walk_concat_eq_ok.mp h
    obtain ⟨hw, below, rfl, hl⟩ := ih ha fun front hf => hs front (hf.trans (List.prefix_append _ _))
    have whole := hs _ (List.prefix_refl _)
    simp only [List.count_append, List.length_append, List.length_singleton] at whole ⊢
    cases c with
    | up =>
      obtain ⟨hf, -, rfl⟩ := step_up_eq_ok.mp hstep
      rw [List.count_singleton_self] at whole ⊢
      have hne : below ≠ [] := by
        rintro rfl
        simp only [List.length_nil] at hl
        omega
      have kept : some base ≠ some (base ++ below) := fun he => hne (by simpa using he)
      refine ⟨walk_concat_eq_ok.mpr ⟨_, hw, hc, step_up_eq_ok.mpr ⟨hf, kept, rfl⟩⟩,
        below.dropLast, List.dropLast_append_of_ne_nil hne, ?_⟩
      have := List.length_pos_iff.mpr hne
      rw [List.length_dropLast]
      omega
    | name name =>
      obtain ⟨hf, hn, hg, rfl⟩ := step_name_eq_ok.mp hstep
      refine ⟨walk_concat_eq_ok.mpr ⟨_, hw, hc, step_name_eq_ok.mpr ⟨hf, hn, hg, rfl⟩⟩,
        below ++ [name], List.append_assoc _ _ _, ?_⟩
      simp only [List.length_append, List.length_singleton, List.count_singleton, reduceCtorEq,
        beq_iff_eq, if_false]
      omega

theorem walk_of_not_staysBelow (h : t.walk none base steps = .ok place)
    (hs : ¬ Path.StaysBelow steps) : t.walk (some base) base steps = .error .outside := by
  induction steps using List.reverseRecOn generalizing place with
  | nil =>
    refine absurd (fun front hf => ?_) hs
    rw [List.prefix_nil.mp hf]
    rfl
  | append_singleton steps c ih =>
    obtain ⟨above, ha, hc, hstep⟩ := walk_concat_eq_ok.mp h
    rw [walk_concat hc]
    by_cases hb : Path.StaysBelow steps
    · obtain ⟨hw, below, rfl, hl⟩ := walk_of_staysBelow ha hb
      -- It is the last step that climbs too high.
      have high : steps.length + 1 < 2 * (steps ++ [c]).count .up := by
        by_contra hle
        refine hs fun front hf => ?_
        rcases List.prefix_concat_iff.mp hf with rfl | hf
        · rw [List.length_append, List.length_singleton]
          omega
        · exact hb front hf
      rw [List.count_append] at high
      cases c with
      | up =>
        rw [List.count_singleton_self] at high
        have hnil : below = [] := List.length_eq_zero_iff.mp (by omega)
        subst hnil
        obtain ⟨hf, -, -⟩ := step_up_eq_ok.mp hstep
        rw [List.append_nil] at hf hw
        rw [hw]
        simp [step, hf, bind, Except.bind]
      | name name =>
        simp only [List.count_singleton, reduceCtorEq, beq_iff_eq, if_false] at high
        omega
    · rw [ih ha hb]
      rfl

/-- The folder of a path is there, wherever the path leads on its way to it. -/
def HasParent (t : Tree φ) (here : Location) (path : String) : Prop :=
  ∃ place, t.walk none (start here path) (Path.parent path) = .ok place ∧ t.isFolder place

end Tree

/-- Making the folder of a path ready does nothing where it is there, unless the path climbs above
the place where it starts: then it is refused. Whatever comes of it, nothing but folders is new.
If all went well, the folder is there, and a second time nothing is new. -/
theorem parent_folder_is_prepared {φ : Type} (t : Tree φ) (here : Location) (path : String)
    (home : t.isFolder here) :
    (t.HasParent here path → Path.StaysBelow (Path.parent path) →
      t.prepareParent here path = (.ok (), t)) ∧
    (t.HasParent here path → ¬ Path.StaysBelow (Path.parent path) →
      t.prepareParent here path = (.error .outside, t)) ∧
    (t.prepareParent here path).2.GrownFrom t ∧
    ∀ t', t.prepareParent here path = (.ok (), t') →
      t'.HasParent here path ∧ t'.prepareParent here path = (.ok (), t') := by
  unfold Tree.prepareParent
  have based : t.isFolder (Tree.start here path) := by
    unfold Tree.start
    split
    · rfl
    · exact home
  have spec := Tree.makeFolders_spec t (Tree.start here path) (Path.parent path) based
  refine ⟨fun ⟨place, hw, hf⟩ hs => ?_, fun ⟨place, hw, hf⟩ hs => ?_, ?_, fun t' h => ?_⟩
  · have inside := (Tree.walk_of_staysBelow hw hs).1
    exact Tree.makeFolders_of_leads (Tree.leadsToFolder_iff.mpr ⟨place, inside, hf⟩)
  · exact Tree.makeFolders_of_outside (Tree.walk_of_not_staysBelow hw hs)
  · exact Ending.result (P := fun _ t' => Tree.GrownFrom t' t)
      (spec.imp (fun _ _ h => h.1) fun _ _ h => h)
  · rw [h] at spec
    obtain ⟨grown, leads⟩ := spec
    obtain ⟨place, hw, hf⟩ := Tree.leadsToFolder_iff.mp leads
    exact ⟨⟨place, ((Tree.GrownFrom.refl t').walk hw).2, hf⟩, Tree.makeFolders_of_leads leads⟩

/-- A folder that is there, one that is there and is left on the way, and one that is made, with
another that is only passed. -/
theorem parent_folder_is_prepared_of_detours :
    let t : Tree Unit := ⟨[(["home", "maps"], .folder), (["home"], .folder)]⟩
    let there := "maps/../maps/./x.db"
    let away := "../home/x.db"
    let missing := "new//old/../x.db"
    let made := t.prepareParent ["home"] missing
    t.isFolder ["home"] ∧
      (t.HasParent ["home"] there ∧ Path.StaysBelow (Path.parent there) ∧
        t.prepareParent ["home"] there = (.ok (), t)) ∧
      (t.HasParent ["home"] away ∧ ¬ Path.StaysBelow (Path.parent away) ∧
        t.prepareParent ["home"] away = (.error .outside, t)) ∧
      (made.1 = .ok () ∧ made.2.GrownFrom t ∧ made.2.HasParent ["home"] missing ∧
        made.2.prepareParent ["home"] missing = (.ok (), made.2)) := by
  intro t there away missing made
  have home : t.isFolder ["home"] := by decide +kernel
  have hthere : t.HasParent ["home"] there := ⟨["home", "maps"], by decide +kernel⟩
  have haway : t.HasParent ["home"] away := ⟨["home"], by decide +kernel⟩
  have below : Path.StaysBelow (Path.parent there) := by decide +kernel
  have climbs : ¬ Path.StaysBelow (Path.parent away) := by decide +kernel
  have well : made.1 = .ok () := by decide +kernel
  obtain ⟨-, -, grown, again⟩ := parent_folder_is_prepared t ["home"] missing home
  exact ⟨home,
    ⟨hthere, below, (parent_folder_is_prepared t ["home"] there home).1 hthere below⟩,
    ⟨haway, climbs, (parent_folder_is_prepared t ["home"] away home).2.1 haway climbs⟩,
    well, grown, again made.2 (Prod.ext well rfl)⟩

/-- A folder that is there is refused if it lies beside the folder where the path starts. -/
theorem parent_folder_beside_is_refused :
    let t : Tree Unit := ⟨[(["home"], .folder), (["data"], .folder)]⟩
    t.isFolder ["home"] ∧ t.HasParent ["home"] "../data/x.db" ∧
      (t.prepareParent ["home"] "../data/x.db").1 = .error .outside := by
  intro t
  exact ⟨by decide +kernel, ⟨["data"], by decide +kernel⟩, by decide +kernel⟩

end MapTables
