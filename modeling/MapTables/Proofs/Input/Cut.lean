import MapTables.Proofs.Input.Encoding

/-!
# Deliveries cut short

A delivery is cut short where its octets end early, in the middle of a piece or between
two. Then it still has the encoding of the whole one, if that is UTF-8.
-/

namespace MapTables

/-! ## Pieces -/

variable {α β : Type}

/-- Pieces that are the same up to where the first ones end. -/
inductive CutOf : List (List α) → List (List α) → Prop
  | between (whole : List (List α)) : CutOf [] whole
  | within (front back : List α) (whole : List (List α)) : CutOf [front] ((front ++ back) :: whole)
  | behind (piece : List α) {part whole : List (List α)} (rest : CutOf part whole) :
      CutOf (piece :: part) (piece :: whole)

namespace CutOf

variable {P W V : List (List α)}

theorem refl (P : List (List α)) : CutOf P P := by
  induction P with
  | nil => exact .between []
  | cons p P ih => exact .behind p ih

theorem append_left (S : List (List α)) (h : CutOf P W) : CutOf (S ++ P) (S ++ W) := by
  induction S with
  | nil => exact h
  | cons s S ih => exact .behind s ih

theorem append_right (h : CutOf P W) (more : List (List α)) : CutOf P (W ++ more) := by
  induction h with
  | between whole => exact .between _
  | within front back whole => exact .within front back _
  | behind piece _ ih => exact .behind piece ih

theorem trans (h : CutOf P W) (hv : CutOf W V) : CutOf P V := by
  induction h generalizing V with
  | between whole => exact .between V
  | within front back whole =>
    cases hv with
    | within _ more V => exact List.append_assoc front back more ▸ .within front (back ++ more) V
    | behind _ _ => exact .within front back _
  | @behind piece part whole rest ih =>
    cases hv with
    | within _ more V =>
      cases rest
      exact .within piece more V
    | behind _ hv => exact .behind piece (ih hv)

theorem map {f : List α → List β} (hf : ∀ s t, f (s ++ t) = f s ++ f t) (h : CutOf P W) :
    CutOf (P.map f) (W.map f) := by
  induction h with
  | between whole => exact .between _
  | within front back whole =>
    rw [List.map_cons, List.map_cons, hf]
    exact .within _ _ _
  | behind piece _ ih => exact .behind _ ih

end CutOf

/-- A delivery that ends early, but is not broken off. -/
structure Delivery.IsCutOf (part whole : Delivery) : Prop where
  pieces : CutOf (part.pieces.map Piece.octets) (whole.pieces.map Piece.octets)
  unbroken : part.failure = none

theorem map_octets_counted (drawn : Nat) (bs : List Bytes) :
    (Delivery.counted drawn bs).map Piece.octets = bs := by
  induction bs generalizing drawn with
  | nil => rfl
  | cons b bs ih => rw [Delivery.counted, List.map_cons, ih]

theorem blocksFrom_done (size : Nat) (h : 0 < size) (done : Array Bytes) (bytes : Bytes) :
    (blocksFrom size h done bytes).toList =
      done.toList ++ (blocksFrom size h #[] bytes).toList := by
  match bytes with
  | [] => simp [blocksFrom]
  | b :: rest =>
    rw [blocksFrom, blocksFrom_done size h (done.push _)]
    conv => rhs; rw [blocksFrom, blocksFrom_done size h (#[].push _)]
    simp
termination_by bytes.length
decreasing_by
  all_goals
    simp only [List.length_drop, List.length_cons]
    omega

theorem blocks_nil (size : Nat) : blocks size [] = [] := by
  unfold blocks
  split
  · simp [blocksFrom]
  · rfl

theorem blocks_eq {size : Nat} (h : 0 < size) {bytes : Bytes} (hb : bytes ≠ []) :
    blocks size bytes = bytes.take size :: blocks size (bytes.drop size) := by
  cases bytes with
  | nil => exact absurd rfl hb
  | cons b rest =>
    simp only [blocks, dif_pos h]
    rw [blocksFrom, blocksFrom_done]
    rfl

theorem cutOf_blocks (size n : Nat) (bytes : Bytes) :
    CutOf (blocks size (bytes.take n)) (blocks size bytes) := by
  by_cases h : 0 < size
  · induction hl : bytes.length using Nat.strongRecOn generalizing n bytes with
    | _ l ih =>
      by_cases hb : bytes.take n = []
      · rw [hb, blocks_nil]
        exact .between _
      have hne : bytes ≠ [] := by
        rintro rfl
        exact hb List.take_nil
      rw [blocks_eq h hb, blocks_eq h hne]
      by_cases hn : n ≤ size
      · rw [List.take_take, Nat.min_eq_right hn, List.drop_take, Nat.sub_eq_zero_of_le hn,
          List.take_zero, blocks_nil]
        have hfront : bytes.take size = bytes.take n ++ (bytes.drop n).take (size - n) := by
          rw [← List.take_add, Nat.add_sub_cancel' hn]
        rw [hfront]
        exact .within _ _ _
      · rw [List.take_take, Nat.min_eq_left (by omega), List.drop_take]
        refine .behind _ (ih _ ?_ _ _ rfl)
        have := List.length_pos_iff.mpr hne
        rw [List.length_drop]
        omega
  · simp only [blocks, dif_neg h]
    exact .between _

theorem isCutOf_ofBytes (bytes : Bytes) (n chunk : Nat) :
    (Delivery.ofBytes (bytes.take n) chunk none).IsCutOf (.ofBytes bytes chunk none) := by
  refine ⟨?_, rfl⟩
  simp only [Delivery.ofBytes, map_octets_counted]
  exact cutOf_blocks _ _ _

/-! ## The encoding -/

variable {part whole : Delivery}

theorem CutOf.head? {P W : List Bytes} (h : CutOf P W) : P.head?.getD [] <+: W.head?.getD [] := by
  cases h with
  | between => exact List.nil_prefix
  | within front back => exact List.prefix_append _ _
  | behind => exact List.prefix_rfl

theorem first_eq (d : Delivery) : d.first = (d.pieces.map Piece.octets).head?.getD [] := by
  rw [Delivery.first, List.head?_map]

theorem Delivery.IsCutOf.first (h : part.IsCutOf whole) : part.first <+: whole.first := by
  rw [first_eq, first_eq]
  exact h.pieces.head?

theorem Delivery.IsCutOf.encoding {label : Option String} (h : part.IsCutOf whole)
    (hw : whole.encoding label = .ok .utf8) : part.encoding label = .ok .utf8 := by
  rw [encoding_eq_ok_iff] at hw ⊢
  refine ⟨fun _ => h.unbroken, ?_⟩
  cases label with
  | none => exact congrArg some (sniff_of_front h.first (Option.some.inj hw.2))
  | some l => exact hw.2

end MapTables
