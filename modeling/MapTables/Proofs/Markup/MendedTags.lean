import MapTables.Proofs.Markup.Ends

/-!
# Attributes of mended tags

Octets of ASCII divide a tag into keys and values, so a mended tag is divided as the tag is. It has
the same attributes where all values are in order and no two keys become the same.
-/

namespace MapTables.Tag

variable {b : UInt8} {cs rest : Bytes} {length position : Nat} {seen : List RawAttribute}
  {keys : List Bytes}

/-! ## Spaces and keys -/

theorem spaces_mend (cs : Bytes) :
    (mend cs).dropWhile isSpace = mend (cs.dropWhile isSpace) := by
  have hsplit := List.takeWhile_append_dropWhile (p := isSpace) (l := cs)
  have hspaces : ∀ b ∈ cs.takeWhile isSpace, isSpace b = true := fun b hb =>
    List.all_eq_true.mp List.all_takeWhile b hb
  have hmend : mend cs = cs.takeWhile isSpace ++ mend (cs.dropWhile isSpace) := by
    rw [← mend_ascii_append fun b hb => Markup.ascii_of_isSpace (hspaces b hb), hsplit]
  rw [hmend, List.dropWhile_append_of_pos hspaces]
  cases hd : cs.dropWhile isSpace with
  | nil => rfl
  | cons c rest =>
    have hc := (Markup.span_of_dropWhile hd).2.1
    cases hm : mend (c :: rest) with
    | nil => rfl
    | cons c' rest' =>
      refine List.dropWhile_cons_of_neg fun hspace => ?_
      have hhead := (head?_mend (Markup.ascii_of_isSpace hspace)).mp (congrArg List.head? hm)
      cases hhead
      exact Bool.false_ne_true (hc.symm.trans hspace)

theorem ascii_of_isKeyOctet (h : isKeyOctet b = false) : b.toNat < 0x80 := by
  rw [isKeyOctet, Bool.and_eq_false_iff] at h
  rcases h with h | h
  · obtain rfl : b = 0x3D := by simpa using h
    decide
  · exact Markup.ascii_of_isSpace (by simpa using h)

/-- A key with at least one octet, and what follows it. -/
def keyOf : Bytes → Option (Bytes × Bytes)
  | [] => none
  | k :: rest => some (k :: rest.takeWhile isKeyOctet, rest.dropWhile isKeyOctet)

theorem keyOf_mend (cs : Bytes) : keyOf (mend cs) = (keyOf cs).map (Prod.map mend mend) := by
  cases cs with
  | nil => rfl
  | cons k rest =>
    by_cases hk : k.toNat < 0x80
    · obtain ⟨htake, hdrop⟩ := Markup.span_mend (fun _ => ascii_of_isKeyOctet) rest
      simp only [mend_cons hk, keyOf, htake, hdrop, Option.map_some, Prod.map_apply]
    · -- An octet that is none of ASCII goes on with a key as well as it begins one.
      have whole {c : UInt8} (hc : ¬ c.toNat < 0x80) (rest : Bytes) : keyOf (c :: rest) =
          some ((c :: rest).takeWhile isKeyOctet, (c :: rest).dropWhile isKeyOctet) := by
        have hkey : isKeyOctet c = true := by
          rw [← Bool.not_eq_false]
          exact fun h => hc (ascii_of_isKeyOctet h)
        rw [keyOf, List.takeWhile_cons_of_pos hkey, List.dropWhile_cons_of_pos hkey]
      obtain ⟨htake, hdrop⟩ := Markup.span_mend (fun _ => ascii_of_isKeyOctet) (k :: rest)
      cases hm : mend (k :: rest) with
      | nil => cases mend_eq_nil.mp hm
      | cons c more =>
        rw [whole hk, whole (head_beyond hk hm), ← hm, htake, hdrop]
        rfl

/-! ## Values -/

theorem tail_mend {a : UInt8} (ha : a.toNat < 0x80) (h : cs.head? = some a) :
    (mend cs).tail = mend cs.tail := by
  obtain ⟨rest, rfl⟩ := List.head?_eq_some_iff.mp h
  rw [mend_cons ha]
  rfl

def behindEquals (cs : Bytes) : Option Bytes :=
  if (cs.dropWhile isSpace).head? = some 0x3D then some (cs.dropWhile isSpace).tail else none

theorem equals?_toOption (length position : Nat) (cs : Bytes) :
    (equals? length position cs).toOption.map (fun e => e.2.val) = behindEquals cs := by
  unfold equals? behindEquals
  split
  · next h =>
    simp only [h]
    rfl
  · next h =>
    simp only [h, List.head?_cons, Option.some.injEq, List.tail_cons]
    split <;> rfl

theorem behindEquals_mend (cs : Bytes) : behindEquals (mend cs) = (behindEquals cs).map mend := by
  have ha : (0x3D : UInt8).toNat < 0x80 := by decide
  unfold behindEquals
  rw [spaces_mend]
  simp only [head?_mend ha]
  split
  · next h => rw [tail_mend ha h]; rfl
  · rfl

def isQuote (b : UInt8) : Bool := b = 0x22 ∨ b = 0x27

theorem ascii_of_isQuote (h : isQuote b = true) : b.toNat < 0x80 := by
  rw [isQuote, decide_eq_true_eq] at h
  rcases h with rfl | rfl <;> decide

def valueOf (cs : Bytes) : Option (Bytes × Bytes) :=
  ((cs.dropWhile isSpace).head?.filter isQuote).bind fun q =>
    let behind := (cs.dropWhile isSpace).tail
    if q ∈ behind then some (behind.takeWhile (· != q), (behind.dropWhile (· != q)).tail) else none

theorem quoted?_toOption (length position : Nat) (cs : Bytes) :
    (quoted? length position cs).toOption.map (fun v => (v.1, v.2.2.val)) = valueOf cs := by
  unfold quoted? valueOf
  split
  · next h =>
    simp only [h]
    rfl
  · next q rest h =>
    simp only [h, List.head?_cons, List.tail_cons]
    have hmem : rest.dropWhile (· != q) = [] ↔ q ∉ rest := by
      rw [List.dropWhile_eq_nil_iff]
      grind
    by_cases hq : q = 0x22 ∨ q = 0x27
    · rw [Option.filter_some_pos (by simpa [isQuote] using hq), Option.bind_some, if_pos hq]
      split
      · next hd =>
        rw [if_neg (hmem.mp hd)]
        rfl
      · next hd =>
        rw [if_pos]
        · simp only [hd]
          rfl
        · by_contra hn
          cases hd.symm.trans (hmem.mpr hn)
    · rw [Option.filter_some_neg (by simpa [isQuote] using hq), if_neg hq]
      rfl

theorem valueOf_mend (cs : Bytes) :
    valueOf (mend cs) = (valueOf cs).map (Prod.map mend mend) := by
  unfold valueOf
  rw [spaces_mend]
  generalize cs.dropWhile isSpace = quoted
  have hquote : (mend quoted).head?.filter isQuote = quoted.head?.filter isQuote := by
    ext q
    rw [Option.filter_eq_some_iff, Option.filter_eq_some_iff]
    exact and_congr_left fun hq => head?_mend (ascii_of_isQuote hq)
  rw [hquote]
  cases hq : quoted.head?.filter isQuote with
  | none => rfl
  | some q =>
    obtain ⟨hhead, hq⟩ := Option.filter_eq_some_iff.mp hq
    have hq := ascii_of_isQuote hq
    have ascii (b : UInt8) (hb : (b != q) = false) : b.toNat < 0x80 := by
      obtain rfl : b = q := by simpa using hb
      exact hq
    simp only [Option.bind_some, tail_mend hq hhead, mem_mend hq, Markup.behind_mend ascii,
      (Markup.span_mend ascii _).1]
    split <;> rfl

/-! ## Attributes -/

/-- The next attribute as its key, its value and what follows it. There is none behind a fault, and
`some none` at the end. -/
def nextOf (keys : List Bytes) (cs : Bytes) : Option (Option (Bytes × Bytes × Bytes)) :=
  match keyOf (cs.dropWhile isSpace) with
  | none => some none
  | some (key, behind) => (behindEquals behind).bind fun behind =>
    if key ∈ keys then none else (valueOf behind).map fun v => some (key, v)

def Found.told (found : Found cs) : Bytes × Bytes × Bytes :=
  (found.raw.key, found.raw.value, found.rest)

theorem next?_toOption (length : Nat) (seen : List RawAttribute) (position : Nat) (cs : Bytes) :
    (next? length seen position cs).toOption.map (Option.map Found.told) =
      nextOf (seen.map RawAttribute.key) cs := by
  unfold next? nextOf
  split
  · next h =>
    simp only [h]
    rfl
  · next k rest h =>
    simp only [h, keyOf]
    generalize k :: rest.takeWhile isKeyOctet = key
    have hseen : (seen.find? fun a => a.key == key) = none ↔ key ∉ seen.map RawAttribute.key := by
      simp [List.find?_eq_none]
    have hequals := equals?_toOption length (position + (cs.takeWhile isSpace).length + key.length)
      (rest.dropWhile isKeyOctet)
    rw [← hequals]
    cases equals? length (position + (cs.takeWhile isSpace).length + key.length)
      (rest.dropWhile isKeyOctet) with
    | error f => rfl
    | ok e =>
      obtain ⟨equals, value, hv⟩ := e
      have hquoted := quoted?_toOption length (equals + 1) value
      simp only [bind, Except.bind, Except.toOption, Option.map_some, Option.bind_some, ← hquoted]
      cases hs : seen.find? fun a => a.key == key with
      | some previous =>
        rw [if_pos (by_contra fun hn => by cases hs.symm.trans (hseen.mpr hn))]
        rfl
      | none =>
        rw [if_neg (hseen.mp hs)]
        cases quoted? length (equals + 1) value <;> rfl

/-- Mended octets have the same next attribute, but mended, where its key is still a new one. -/
theorem nextOf_mend (fresh : ∀ a, nextOf keys cs = some (some a) → mend a.1 ∉ keys.map mend) :
    nextOf (keys.map mend) (mend cs) =
      (nextOf keys cs).map (Option.map (Prod.map mend (Prod.map mend mend))) := by
  unfold nextOf
  rw [spaces_mend, keyOf_mend]
  cases hk : keyOf (cs.dropWhile isSpace) with
  | none => rfl
  | some k =>
    obtain ⟨key, behind⟩ := k
    simp only [Option.map_some, Prod.map_apply, behindEquals_mend]
    cases hb : behindEquals behind with
    | none => rfl
    | some behind =>
      simp only [Option.map_some, Option.bind_some, valueOf_mend]
      by_cases hseen : key ∈ keys
      · rw [if_pos hseen, if_pos (List.mem_map_of_mem hseen)]
        rfl
      · rw [if_neg hseen]
        cases hv : valueOf behind with
        | none => split <;> rfl
        | some v =>
          have hnext : nextOf keys cs = some (some (key, v)) := by
            simp only [nextOf, hk, hb, hv, hseen, Option.bind_some, if_false, Option.map_some]
          rw [if_neg (fresh (key, v) hnext)]
          rfl

def readFrom (length : Nat) (seen : List RawAttribute) (position : Nat) (cs : Bytes) :
    List RawAttribute :=
  match next? length seen position cs with
  | .error _ => []
  | .ok none => []
  | .ok (some found) =>
    have := found.shorter
    found.raw :: if (valueText found.raw.value).isOk then
      readFrom length (found.raw :: seen) found.position found.rest else []
termination_by cs.length

/-- The values that are read in a tag are in order, and no two of its keys are the same when they
are mended. -/
def Legible (content : Bytes) (nameLength : Nat) : Prop :=
  let read := readFrom content.length [] nameLength (content.drop nameLength)
  (∀ a ∈ read, mend a.value = a.value) ∧ (read.map fun a => mend a.key).Nodup

instance (content : Bytes) (nameLength : Nat) : Decidable (Legible content nameLength) :=
  inferInstanceAs (Decidable (_ ∧ _))

theorem localName_mend (name : Bytes) : localName (mend name) = mend (localName name) := by
  have ascii (b : UInt8) (hb : (b != 0x3A) = false) : b.toNat < 0x80 := by
    obtain rfl : b = 0x3A := by simpa using hb
    decide
  have hdrop := (Markup.span_mend ascii name).2
  unfold localName
  rw [hdrop]
  cases hd : name.dropWhile (· != 0x3A) with
  | nil => rfl
  | cons c rest => rw [mend_cons (ascii c (Markup.span_of_dropWhile hd).2.1)]

theorem readFrom_of_found {found : Found cs}
    (h : next? length seen position cs = .ok (some found)) : readFrom length seen position cs =
      found.raw :: if (valueText found.raw.value).isOk then
        readFrom length (found.raw :: seen) found.position found.rest else [] := by
  rw [readFrom, h]

section Mended

variable {seen' : List RawAttribute}

theorem next?_mend (length' position' : Nat)
    (hseen : seen'.map RawAttribute.key = (seen.map RawAttribute.key).map mend)
    (fresh : ∀ found, next? length seen position cs = .ok (some found) →
      mend found.raw.key ∉ (seen.map RawAttribute.key).map mend) :
    (next? length' seen' position' (mend cs)).toOption.map (Option.map Found.told) =
      ((next? length seen position cs).toOption.map (Option.map Found.told)).map
        (Option.map (Prod.map mend (Prod.map mend mend))) := by
  have hnext := next?_toOption length seen position cs
  rw [next?_toOption, hnext, hseen]
  refine nextOf_mend fun a ha => ?_
  rw [← hnext] at ha
  obtain ⟨found?, hfound?, ha⟩ := Option.map_eq_some_iff.mp ha
  obtain ⟨found, rfl, rfl⟩ := Option.map_eq_some_iff.mp ha
  exact fresh found (ok_of_toOption hfound?)

theorem attributesFrom_mend {length' position' : Nat}
    (hseen : seen'.map RawAttribute.key = (seen.map RawAttribute.key).map mend)
    (values : ∀ a ∈ readFrom length seen position cs, mend a.value = a.value)
    (keys : ((seen ++ readFrom length seen position cs).map fun a => mend a.key).Nodup)
    (done : Array (String × String)) :
    (attributesFrom length' seen' done position' (mend cs)).toOption =
      (attributesFrom length seen done position cs).toOption := by
  have fresh {seen : List RawAttribute} {position : Nat} {cs : Bytes}
      (keys : ((seen ++ readFrom length seen position cs).map fun a => mend a.key).Nodup) :
      ∀ found, next? length seen position cs = .ok (some found) →
        mend found.raw.key ∉ (seen.map RawAttribute.key).map mend := by
    intro found hnext hmem
    rw [readFrom_of_found hnext, List.map_append, List.map_cons] at keys
    rw [List.map_map] at hmem
    exact (List.nodup_append.mp keys).2.2 _ hmem _ List.mem_cons_self rfl
  induction seen, position, cs using readFrom.induct length generalizing seen' position' done with
  | case1 seen position cs f hnext =>
    have hmend := next?_mend length' position' hseen (fresh keys)
    rw [hnext] at hmend
    obtain ⟨f', hnext'⟩ := exists_error_of_isNone
      (Option.isNone_iff_eq_none.mpr (Option.map_eq_none_iff.mp hmend))
    rw [attributesFrom, attributesFrom, hnext, hnext']
    rfl
  | case2 seen position cs hnext =>
    have hmend := next?_mend length' position' hseen (fresh keys)
    rw [hnext] at hmend
    obtain ⟨found?, hnext', htold⟩ := Option.map_eq_some_iff.mp hmend
    obtain rfl := Option.map_eq_none_iff.mp htold
    rw [attributesFrom, attributesFrom, hnext, ok_of_toOption hnext']
  | case3 seen position cs found hnext _ ih =>
    have hmend := next?_mend length' position' hseen (fresh keys)
    rw [hnext] at hmend
    obtain ⟨found?, hnext', htold⟩ := Option.map_eq_some_iff.mp hmend
    obtain ⟨found', rfl, hmended⟩ := Option.map_eq_some_iff.mp htold
    obtain ⟨hkey, hbehind⟩ := Prod.mk.inj hmended
    obtain ⟨hvalue, hrest⟩ := Prod.mk.inj hbehind
    rw [readFrom_of_found hnext] at values keys
    rw [values found.raw List.mem_cons_self] at hvalue
    rw [attributesFrom, attributesFrom, hnext, ok_of_toOption hnext']
    simp only [hkey, hvalue, localName_mend, decodeLossy_mend]
    cases htext : valueText found.raw.value with
    | error f => rfl
    | ok text =>
      simp only [htext, Except.isOk, Except.toBool, if_true] at values keys
      rw [hrest]
      refine ih ?_ (fun a ha => values a (List.mem_cons_of_mem _ ha)) ?_ _
      · rw [List.map_cons, List.map_cons, List.map_cons, hkey, hseen]
      · exact (List.perm_middle.map _).nodup_iff.mp keys

end Mended

theorem attributes_mend {content : Bytes} {nameLength nameLength' : Nat}
    (h : Legible content nameLength)
    (hname : (mend content).drop nameLength' = mend (content.drop nameLength)) :
    (attributes (mend content) nameLength').toOption =
      (attributes content nameLength).toOption := by
  rw [attributes, attributes, toOption_map, toOption_map, hname, attributesFrom_mend rfl h.1 h.2]

end MapTables.Tag
