import BcmUtils.Model.PortVlans

/-! # The cursor of the inner loop

The inner loop of `bcm_port_based_vlan_get` moves its cursor by the length of the port that it
read, not behind it. The cursor stays in front of the next comma, so the same port may be read
again, but no port is left out. -/

namespace BcmUtils.PortVlans

open CLib

/-- The bit of a port, if the port is below the limit of its check. -/
def portBit (limit n : ℕ) : BitVec 32 := if n < limit then 1#32 <<< n else 0

/-- The bits of the ports that are not the first one of a record. -/
def laterMap (ports : List ℕ) : BitVec 32 := ports.foldr (fun n map => portBit 28 n ||| map) 0

/-- The ports behind the first one, and what follows them. -/
def laterText (ports : List ℕ) (rest : CStr) : CStr :=
  ports.flatMap (fun n => chr ',' :: printNat n) ++ rest

theorem laterMap_cons (n : ℕ) (ports : List ℕ) :
    laterMap (n :: ports) = portBit 28 n ||| laterMap ports := rfl

theorem laterText_cons (n : ℕ) (ports : List ℕ) (rest : CStr) :
    laterText (n :: ports) rest = chr ',' :: (printNat n ++ laterText ports rest) := by
  simp [laterText]

theorem setPort_printNat {n : ℕ} (hpos : 1 ≤ n) (hle : n ≤ 28) (limit : ℕ) {s : CStr}
    (hs : ∀ b ∈ s.head?, isDigit b = false) (map : BitVec 32) :
    setPort limit (printNat n ++ s) map = some (map ||| portBit limit n) := by
  have hn : IsInt (n : ℤ) := by
    simp only [IsInt, intMin, intMax]
    omega
  rw [setPort, atoi_printNat_append hn hs, portBit]
  by_cases hlimit : n < limit
  · rw [if_pos (by omega), if_pos (by omega), if_pos hlimit, Int.toNat_natCast]
  · rw [if_neg (by omega), if_neg hlimit]
    simp

/-! ## One round -/

/-- Moving by the length of a piece and its comma does not pass the next comma. -/
theorem drop_cursor (c : Byte) (u x w : CStr) :
    (u ++ c :: (x ++ c :: w)).drop (x.length + 1) =
      if x.length < u.length then u.drop (x.length + 1) ++ c :: (x ++ c :: w)
      else x.drop (x.length - u.length) ++ c :: w := by
  split
  next hlt => rw [List.drop_append_of_le_length (by omega)]
  next hge =>
    have hsucc : x.length + 1 - u.length = (x.length - u.length) + 1 := by omega
    rw [List.drop_append, List.drop_eq_nil_of_le (by omega), List.nil_append, hsucc,
      List.drop_succ_cons, List.drop_append_of_le_length (by omega)]

section

variable {pc : CStr} (fuel : ℕ) (map : BitVec 32)

/-- The loop ends when the next comma stands behind the ports. -/
theorem laterPortsLoop_stop {x rest : CStr} (hx : chr ',' ∉ x) (hrest : rest.length < pc.length) :
    laterPortsLoop pc (fuel + 1) (x ++ rest) map = some map := by
  rw [laterPortsLoop, strchr_append hx]
  cases hcomma : strchr (chr ',') rest with
  | none => rfl
  | some comma =>
      obtain ⟨u, rfl, -, v, rfl⟩ := strchr_eq_some hcomma
      have hbehind : (chr ',' :: v).tail.length < pc.length := by
        rw [List.length_append, List.length_cons] at hrest
        rw [List.tail_cons]
        omega
      exact if_pos hbehind

variable {u x : CStr} (hu : chr ',' ∉ u) (hx : chr ',' ∉ x)

include hu hx

/-- With another comma behind the port, the cursor moves by the length of the port. -/
theorem laterPortsLoop_comma {w : CStr} (hpc : pc.length ≤ (x ++ chr ',' :: w).length)
    {map' : BitVec 32} (hset : setPort 28 (x ++ chr ',' :: w) map = some map') :
    laterPortsLoop pc (fuel + 1) (u ++ chr ',' :: (x ++ chr ',' :: w)) map =
      laterPortsLoop pc fuel ((u ++ chr ',' :: (x ++ chr ',' :: w)).drop (x.length + 1)) map' := by
  have hadvance : advance ((x ++ chr ',' :: w).length - (chr ',' :: w).length + 1)
      (u ++ chr ',' :: (x ++ chr ',' :: w)) =
        some ((u ++ chr ',' :: (x ++ chr ',' :: w)).drop (x.length + 1)) := by
    have hdist : (x ++ chr ',' :: w).length - (chr ',' :: w).length = x.length := by
      rw [List.length_append]
      omega
    rw [hdist, advance, if_pos]
    simp only [List.length_append, List.length_cons]
    omega
  have hfront : ¬ (chr ',' :: (x ++ chr ',' :: w)).tail.length < pc.length := by
    rw [List.tail_cons]
    omega
  rw [laterPortsLoop, strchr_append_cons hu]
  refine (if_neg hfront).trans ?_
  rw [List.tail_cons, bind_of_eq hset, strchr_append_cons hx]
  exact bind_of_eq hadvance _

/-- Without another comma, the cursor moves by one byte. -/
theorem laterPortsLoop_end (hpc : pc.length ≤ x.length) {map' : BitVec 32}
    (hset : setPort 28 x map = some map') :
    laterPortsLoop pc (fuel + 1) (u ++ chr ',' :: x) map =
      laterPortsLoop pc fuel ((u ++ chr ',' :: x).drop 1) map' := by
  have hadvance : advance 1 (u ++ chr ',' :: x) = some ((u ++ chr ',' :: x).drop 1) := by
    rw [advance, if_pos]
    simp only [List.length_append, List.length_cons]
    omega
  have hfront : ¬ (chr ',' :: x).tail.length < pc.length := by
    rw [List.tail_cons]
    omega
  rw [laterPortsLoop, strchr_append_cons hu]
  refine (if_neg hfront).trans ?_
  rw [List.tail_cons, bind_of_eq hset, strchr_eq_none.mpr hx]
  exact bind_of_eq hadvance _

end

/-! ## All rounds -/

/-- A piece between two commas is read, if need be again, until the cursor is behind the first
of them. -/
theorem laterPortsLoop_piece {pc x w : CStr} {bit map : BitVec 32} {result : Option (BitVec 32)}
    (hx : chr ',' ∉ x) (hpc : pc.length ≤ (x ++ chr ',' :: w).length)
    (hset : ∀ map, setPort 28 (x ++ chr ',' :: w) map = some (map ||| bit))
    (hnext : ∀ (fuel : ℕ) (u : CStr), chr ',' ∉ u → (u ++ chr ',' :: w).length < fuel →
      laterPortsLoop pc fuel (u ++ chr ',' :: w) (map ||| bit) = result)
    {fuel : ℕ} {u : CStr} (hu : chr ',' ∉ u)
    (hfuel : (u ++ chr ',' :: (x ++ chr ',' :: w)).length < fuel) :
    laterPortsLoop pc fuel (u ++ chr ',' :: (x ++ chr ',' :: w)) map = result := by
  induction fuel generalizing u map with
  | zero => omega
  | succ fuel ih =>
      rw [laterPortsLoop_comma fuel map hu hx hpc (hset map), drop_cursor]
      split
      next hlt =>
        refine ih ?_ (fun h => hu (List.mem_of_mem_drop h)) ?_
        · -- reading the piece again changes nothing
          rw [BitVec.or_assoc, BitVec.or_self]
          exact hnext
        · simp only [List.length_append, List.length_drop] at hfuel ⊢
          omega
      next hge =>
        refine hnext fuel _ (fun h => hx (List.mem_of_mem_drop h)) ?_
        simp only [List.length_append, List.length_drop, List.length_cons] at hfuel ⊢
        omega

section

variable (T : CStr)

/-- Behind the ports only a comma that is not in front of them is left. -/
theorem laterPortsLoop_behind {x rest : CStr} (hx : chr ',' ∉ x) (hrest : rest.length ≤ T.length)
    {fuel : ℕ} (hfuel : 0 < fuel) (map : BitVec 32) :
    laterPortsLoop (chr ':' :: T) fuel (x ++ rest) map = some map := by
  obtain ⟨fuel, rfl⟩ := Nat.exists_eq_add_of_lt hfuel
  exact laterPortsLoop_stop _ map hx (by simpa using Nat.lt_succ_of_le hrest)

/-- Without a comma behind the last port, the cursor passes its comma byte by byte. -/
theorem laterPortsLoop_no_comma {q : ℕ} (hq : 1 ≤ q ∧ q ≤ 28) (hT : chr ',' ∉ T) {fuel : ℕ}
    {u : CStr} (hu : chr ',' ∉ u)
    (hfuel : (u ++ chr ',' :: (printNat q ++ chr ':' :: T)).length < fuel) (map : BitVec 32) :
    laterPortsLoop (chr ':' :: T) fuel (u ++ chr ',' :: (printNat q ++ chr ':' :: T)) map =
      some (map ||| portBit 28 q) := by
  have hport : chr ',' ∉ printNat q := not_mem_printNat (by decide) q
  have hx : chr ',' ∉ printNat q ++ chr ':' :: T := by
    rw [List.mem_append, List.mem_cons]
    exact fun h => h.elim hport fun h => h.elim (by decide) hT
  have hset := setPort_printNat hq.1 hq.2 28 (s := chr ':' :: T) (by simp; decide)
  induction u generalizing fuel map with
  | nil =>
      obtain ⟨fuel, rfl⟩ := Nat.exists_eq_add_of_lt hfuel
      have hpiece : printNat q ++ chr ':' :: T = (printNat q ++ [chr ':']) ++ T := by simp
      rw [laterPortsLoop_end _ map hu hx (by simp) (hset map), List.nil_append,
        List.drop_succ_cons, List.drop_zero, hpiece]
      refine laterPortsLoop_behind T ?_ le_rfl (by simp) _
      rw [List.mem_append, List.mem_singleton]
      exact fun h => h.elim hport (by decide)
  | cons b u ih =>
      obtain ⟨fuel, rfl⟩ := Nat.exists_eq_add_of_lt hfuel
      rw [laterPortsLoop_end _ map hu hx (by simp) (hset map), List.cons_append,
        List.drop_succ_cons, List.drop_zero,
        ih (fun h => hu (List.mem_cons_of_mem _ h)) (by rw [List.length_cons]; omega),
        BitVec.or_assoc, BitVec.or_self]

/-- The last port is read until the cursor is behind its comma. -/
theorem laterPortsLoop_last {q : ℕ} (hq : 1 ≤ q ∧ q ≤ 28) {fuel : ℕ} {u : CStr}
    (hu : chr ',' ∉ u)
    (hfuel : (u ++ chr ',' :: (printNat q ++ chr ':' :: T)).length < fuel) (map : BitVec 32) :
    laterPortsLoop (chr ':' :: T) fuel (u ++ chr ',' :: (printNat q ++ chr ':' :: T)) map =
      some (map ||| portBit 28 q) := by
  cases hcomma : strchr (chr ',') T with
  | none => exact laterPortsLoop_no_comma T hq (strchr_eq_none.mp hcomma) hu hfuel map
  | some comma =>
      -- a comma in the description or in a later record
      obtain ⟨v, hT, hv, w, rfl⟩ := strchr_eq_some hcomma
      have hpiece : printNat q ++ chr ':' :: T =
          (printNat q ++ chr ':' :: v) ++ chr ',' :: w := by
        rw [hT, List.append_assoc, List.cons_append]
      have hx : chr ',' ∉ printNat q ++ chr ':' :: v := by
        rw [List.mem_append, List.mem_cons]
        exact fun h => h.elim (not_mem_printNat (by decide) q) fun h => h.elim (by decide) hv
      have hlen : (chr ',' :: w).length ≤ T.length := by
        rw [hT, List.length_append]
        omega
      have hset := setPort_printNat hq.1 hq.2 28 (s := chr ':' :: T) (by simp; decide)
      rw [hpiece] at hset hfuel ⊢
      refine laterPortsLoop_piece hx (by rw [← hpiece]; simp) hset (fun fuel u hu hfuel => ?_) hu
        hfuel
      exact laterPortsLoop_behind T hu hlen (by omega) _

/-- The cursor is in front of a comma, and every port behind that comma is read. -/
theorem laterPortsLoop_ports {q : ℕ} {ports : List ℕ} (hports : ∀ n ∈ q :: ports, 1 ≤ n ∧ n ≤ 28)
    {fuel : ℕ} {u : CStr} (hu : chr ',' ∉ u)
    (hfuel : (u ++ laterText (q :: ports) (chr ':' :: T)).length < fuel) (map : BitVec 32) :
    laterPortsLoop (chr ':' :: T) fuel (u ++ laterText (q :: ports) (chr ':' :: T)) map =
      some (map ||| laterMap (q :: ports)) := by
  have hq := hports q List.mem_cons_self
  induction ports generalizing q fuel u map with
  | nil =>
      rw [laterText_cons] at hfuel ⊢
      exact (laterPortsLoop_last T hq hu hfuel map).trans (by simp [laterMap])
  | cons n ports ih =>
      have hrest : ∀ m ∈ n :: ports, 1 ≤ m ∧ m ≤ 28 :=
        fun m hm => hports m (List.mem_cons_of_mem _ hm)
      have hset := setPort_printNat hq.1 hq.2 28 (s := laterText (n :: ports) (chr ':' :: T))
        (by rw [laterText_cons]; simp; decide)
      have hpc : (chr ':' :: T).length ≤
          (printNat q ++ laterText (n :: ports) (chr ':' :: T)).length := by
        rw [laterText, List.length_append, List.length_append]
        omega
      rw [laterText_cons q] at hfuel ⊢
      rw [laterText_cons n] at hfuel hset hpc ⊢
      refine laterPortsLoop_piece (not_mem_printNat (by decide) q) hpc hset
        (fun fuel u hu hfuel => ?_) hu hfuel
      rw [← laterText_cons] at hfuel ⊢
      rw [ih hrest hu hfuel _ (hrest n List.mem_cons_self), laterMap_cons q, BitVec.or_assoc]

end

end BcmUtils.PortVlans
