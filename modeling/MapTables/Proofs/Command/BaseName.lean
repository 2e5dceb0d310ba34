import Mathlib.Data.List.Infix
import MapTables.Command.TableName

/-!
# Base names from file names

The name that a dataset gets of its file can always be used. The container of a file and the stem
that gives the name are told by one and the same ending.
-/

namespace MapTables

/-! ## Endings of file names -/

namespace Container

/-- A name is a stem with the ending of a container, in any ASCII case. -/
def Names (name stem : List Char) (c : Container) : Prop :=
  ∃ ending, name = stem ++ ending ∧ (ending.map Char.toLower, c) ∈
    [(".osm".toList, .plain), (".osm.gz".toList, .gzip), (".osm.bz2".toList, .bzip2)]

theorem mem_endings {e : List Char} {c : Container} :
    (e, c) ∈ [(".osm".toList, .plain), (".osm.gz".toList, .gzip), (".osm.bz2".toList, .bzip2)] ↔
      (String.ofList e, c) ∈ endings := by
  have same {s : String} : e = s.toList ↔ String.ofList e = s :=
    ⟨by rintro rfl; exact String.ofList_toList, by rintro rfl; exact String.toList_ofList.symm⟩
  simp only [endings, List.mem_cons, List.not_mem_nil, or_false, Prod.mk.injEq, same]

theorem endsIn_iff {name ending : String} : endsIn name ending ↔
    ∃ stem suffix, name.toList = stem ++ suffix ∧ suffix.map Char.toLower = ending.toList := by
  unfold endsIn
  rw [List.isSuffixOf_iff_suffix]
  constructor
  · rintro ⟨front, h⟩
    obtain ⟨stem, suffix, hs, -, he⟩ := List.map_eq_append_iff.mp h.symm
    exact ⟨stem, suffix, hs, he⟩
  · rintro ⟨stem, suffix, hs, he⟩
    rw [hs, List.map_append, he]
    exact List.suffix_append _ _

theorem Names.of_endsIn {name ending : String} {c : Container} (hc : (ending, c) ∈ endings)
    (h : endsIn name ending) :
    Names name.toList (name.toList.take (name.length - ending.length)) c := by
  obtain ⟨stem, suffix, hs, he⟩ := endsIn_iff.mp h
  have length : ending.length = suffix.length := by
    rw [← String.length_toList, ← he, List.length_map]
  rw [← String.length_toList, hs, List.length_append, length, Nat.add_sub_cancel, List.take_left]
  refine ⟨suffix, rfl, mem_endings.mpr ?_⟩
  rwa [he, String.ofList_toList]

theorem Names.endsIn {name : String} {stem : List Char} {c : Container}
    (h : Names name.toList stem c) : ∃ ending, (ending, c) ∈ endings ∧ endsIn name ending := by
  obtain ⟨suffix, hs, hc⟩ := h
  refine ⟨_, mem_endings.mp hc, endsIn_iff.mpr ⟨stem, suffix, hs, ?_⟩⟩
  rw [String.toList_ofList]

theorem Names.unique {name stem stem' : List Char} {c c' : Container} (h : Names name stem c)
    (h' : Names name stem' c') : stem = stem' ∧ c = c' := by
  obtain ⟨e, rfl, he⟩ := h
  obtain ⟨e', hs, he'⟩ := h'
  have ended {e stem : List Char} {c : Container} (he : (e.map Char.toLower, c) ∈
      [(".osm".toList, .plain), (".osm.gz".toList, .gzip), (".osm.bz2".toList, .bzip2)]) :
      (e.map Char.toLower).getLast? = (stem ++ e).getLast?.map Char.toLower := by
    have hne : e ≠ [] := by
      rintro rfl
      simp at he
    rw [List.getLast?_map, List.getLast?_append_of_ne_nil _ hne]
  have last : (e.map Char.toLower).getLast? = (e'.map Char.toLower).getLast? := by
    rw [ended he, hs, ← ended he']
  have same : e.map Char.toLower = e'.map Char.toLower ∧ c = c' := by
    simp only [List.mem_cons, List.not_mem_nil, or_false, Prod.mk.injEq] at he he'
    rcases he with ⟨he, rfl⟩ | ⟨he, rfl⟩ | ⟨he, rfl⟩ <;>
      rcases he' with ⟨he', rfl⟩ | ⟨he', rfl⟩ | ⟨he', rfl⟩ <;> rw [he, he'] at last ⊢ <;>
      first | exact ⟨rfl, rfl⟩ | exact absurd last (by decide)
  have length : e.length = e'.length := by simpa using congrArg List.length same.1
  exact ⟨(List.append_inj' hs length).1, same.2⟩

theorem ofFileName?_eq_some_iff {name : String} {c : Container} :
    ofFileName? name = some c ↔ ∃ stem, Names name.toList stem c := by
  unfold ofFileName?
  rw [Option.map_eq_some_iff]
  have ends {e : String × Container}
      (he : endings.find? (fun e => Container.endsIn name e.1) = some e) :
      Container.endsIn name e.1 := List.find?_some (p := fun e : String × Container => Container.endsIn name e.1) he
  constructor
  · rintro ⟨⟨ending, c⟩, he, rfl⟩
    exact ⟨_, Names.of_endsIn (List.mem_of_find?_eq_some he) (ends he)⟩
  · rintro ⟨stem, h⟩
    obtain ⟨ending, hc, he⟩ := h.endsIn
    have found : (endings.find? fun e => Container.endsIn name e.1).isSome :=
      List.find?_isSome.mpr ⟨_, hc, he⟩
    obtain ⟨⟨ending', c'⟩, he'⟩ := Option.isSome_iff_exists.mp found
    -- Another ending would have another container.
    have := Names.of_endsIn (List.mem_of_find?_eq_some he') (ends he')
    exact ⟨_, he', (this.unique h).2⟩

end Container

namespace Command

/-! ## Stems -/

theorem mem_leftOutEndings {ending : String} :
    ending ∈ leftOutEndings ↔ ∃ c, (ending, c) ∈ Container.endings := by
  simp only [leftOutEndings, Container.endings, List.mem_cons, List.not_mem_nil, or_false,
    Prod.mk.injEq, exists_or, exists_and_left, exists_eq, and_true]
  tauto

theorem stem_of_names {name : String} {s : List Char} {c : Container}
    (h : Container.Names name.toList s c) : stem name = s := by
  obtain ⟨ending, hc, he⟩ := h.endsIn
  have found : (leftOutEndings.find? (Container.endsIn name)).isSome :=
    List.find?_isSome.mpr ⟨ending, mem_leftOutEndings.mpr ⟨c, hc⟩, he⟩
  obtain ⟨ending', he'⟩ := Option.isSome_iff_exists.mp found
  obtain ⟨c', hc'⟩ := mem_leftOutEndings.mp (List.mem_of_find?_eq_some he')
  unfold stem
  rw [he']
  exact ((Container.Names.of_endsIn hc' (List.find?_some he')).unique h).1

theorem stem_of_unpacked {name : String} (h : Container.ofFileName? name = none) :
    stem name = name.toList := by
  have unfound : leftOutEndings.find? (Container.endsIn name) = none := by
    refine List.find?_eq_none.mpr fun ending hm he => ?_
    obtain ⟨c, hc⟩ := mem_leftOutEndings.mp hm
    have := Container.ofFileName?_eq_some_iff.mpr ⟨_, Container.Names.of_endsIn hc he⟩
    rw [h] at this
    cases this
  unfold stem
  rw [unfound]

/-! ## Base names -/

theorem isNameChar_tameChar (c : Char) : isNameChar (tameChar c) := by
  unfold tameChar isNameChar
  split
  · next h => simp [h]
  · rfl

theorem nameFault?_cons_eq_none {c : Char} {cs : List Char} (hc : isNameStart c)
    (hcs : ∀ a ∈ cs, isNameChar a) : nameFault? (c :: cs) = none := by
  simp [nameFault?, hc, List.all_eq_true.mpr hcs]

theorem nameFault?_tame (cs : List Char) : nameFault? (tame cs).toList = none := by
  have chars : ∀ c ∈ cs.map tameChar, isNameChar c := by
    intro c hc
    obtain ⟨a, -, rfl⟩ := List.mem_map.mp hc
    exact isNameChar_tameChar a
  unfold tame
  cases h : cs.map tameChar with
  | nil => decide
  | cons c rest =>
    rw [h] at chars
    by_cases hd : c.isDigit
    · simp only [hd, if_true, String.toList_ofList]
      exact nameFault?_cons_eq_none rfl chars
    · -- A character of a name that is no digit may start one.
      have start : isNameStart c := by
        have hc := chars c List.mem_cons_self
        unfold isNameChar at hc
        unfold isNameStart
        simpa [Char.isAlphanum, hd] using hc
      simp only [hd, Bool.false_eq_true, if_false, String.toList_ofList]
      exact nameFault?_cons_eq_none start fun a ha => chars a (List.mem_cons_of_mem c ha)

end Command

/-- The name that a dataset gets of its file is a base name. A file has a container just if its name
ends in that of one, in any ASCII case, and the dataset is then named by what stands in front of the
ending; otherwise by the whole name. -/
theorem default_base_of_stem (path : String) :
    (∃ d, Dataset.ofBase (Command.defaultBase path) = .ok d) ∧
    (∀ c, Container.ofPath? path = some c ↔
      ∃ name stem, Path.fileName? path = some name ∧ Container.Names name.toList stem c) ∧
    (∀ name stem c, Path.fileName? path = some name → Container.Names name.toList stem c →
      Command.defaultBase path = Command.tame stem) ∧
    (Container.ofPath? path = none →
      Command.defaultBase path = Command.tame ((Path.fileName? path).getD "osm").toList) := by
  refine ⟨?_, fun c => ?_, fun name stem c hn hs => ?_, fun h => ?_⟩
  · cases hb : Dataset.ofBase (Command.defaultBase path) with
    | ok d => exact ⟨d, rfl⟩
    | error fault =>
      have := Dataset.ofBase_eq_error_iff.mp hb
      unfold Command.defaultBase at this
      rw [Command.nameFault?_tame] at this
      cases this
  · simp only [Container.ofPath?, Option.bind_eq_some_iff, Container.ofFileName?_eq_some_iff,
      exists_and_left]
  · unfold Command.defaultBase
    rw [hn, Option.getD_some, Command.stem_of_names hs]
  · unfold Command.defaultBase
    cases hn : Path.fileName? path with
    | none => rfl
    | some name =>
      unfold Container.ofPath? at h
      rw [hn, Option.bind_some] at h
      rw [Option.getD_some, Command.stem_of_unpacked h]
      rfl

/-- A packed file whose stem ends like a map file and starts with a digit, and a file without a
container. -/
theorem default_base_of_stem_of_packed :
    let name := "24-île.osm.OSM.Gz"
    let path := "maps/./" ++ name ++ "/"
    let bare := "../île.osm.pbf"
    (Path.fileName? path = some name ∧
      Container.Names name.toList "24-île.osm".toList .gzip ∧
      Container.ofPath? path = some .gzip ∧ Command.defaultBase path = "_24__le_osm") ∧
    Container.ofPath? bare = none ∧ Command.defaultBase bare = "_le_osm_pbf" := by
  intro name path bare
  have named : Path.fileName? path = some name := by decide +kernel
  have ending : Container.Names name.toList "24-île.osm".toList .gzip :=
    ⟨".OSM.Gz".toList, by decide +kernel, by decide +kernel⟩
  have unpacked : Container.ofPath? bare = none := by decide +kernel
  obtain ⟨-, packed, stem, -⟩ := default_base_of_stem path
  obtain ⟨-, -, -, whole⟩ := default_base_of_stem bare
  refine ⟨⟨named, ending, (packed _).mpr ⟨_, _, named, ending⟩, ?_⟩, unpacked, ?_⟩
  · rw [stem _ _ _ named ending]
    decide +kernel
  · rw [whole unpacked]
    decide +kernel

end MapTables
