import BcmUtils.Verification.Sessions.Fields

/-! # The block of the vty sessions

The loops fill one entry for each line. Nothing stops them behind the last entry, and nothing stops
an address behind its field. -/

namespace BcmUtils.Sessions

open CLib

/-- The lines of both files, telnet first. -/
def sessions (telnet ssh : Option (List Byte)) : List Session :=
  (sessionLines telnet).map .telnet ++ (sessionLines ssh).map .ssh

/-- A line that stores nothing: one of telnet without an address in front of its first comma. -/
def Session.Blank : Session → Prop
  | telnet line => ∀ b ∈ line.head?, b = chr ','
  | ssh _ => False

/-- The stores of the lines from entry `k` on. -/
def run (e : Endian) : List Session → ℕ → VtyBlock → Option (ℕ × VtyBlock)
  | [], k, b => some (k, b)
  | s :: ss, k, b => (b.copyAll (s.stores e k)).bind (run e ss (k + 1))

theorem run_append (e : Endian) (ss ss' : List Session) (k : ℕ) (b : VtyBlock) :
    run e (ss ++ ss') k b = (run e ss k b).bind fun r => run e ss' r.1 r.2 := by
  induction ss generalizing k b with
  | nil => rfl
  | cons s ss ih =>
      rw [List.cons_append, run, run, Option.bind_assoc]
      congr 1
      funext b'
      exact ih (k + 1) b'

/-- Each line counts. -/
theorem run_count {e : Endian} {ss : List Session} {k : ℕ} {b : VtyBlock} {r : ℕ × VtyBlock}
    (h : run e ss k b = some r) : r.1 = k + ss.length := by
  induction ss generalizing k b with
  | nil =>
      rw [← Option.some.inj h]
      rfl
  | cons s ss ih =>
      rw [run] at h
      obtain ⟨b', -, hrest⟩ := Option.bind_eq_some_iff.mp h
      rw [ih hrest, List.length_cons]
      omega

theorem vtyLoop_eq_run {e : Endian} {stores : ℕ → CStr → List (ℕ × List Byte)}
    {session : CStr → Session} (h : ∀ k buf, (session buf).stores e k = stores k buf)
    (bufs : List CStr) (k : ℕ) (b : VtyBlock) :
    vtyLoop stores bufs k b = run e (bufs.map session) k b := by
  induction bufs generalizing k b with
  | nil => rfl
  | cons buf bufs ih =>
      rw [vtyLoop, List.map_cons, run, h]
      simp only [ih]
      rfl

theorem getAaaLineVtyInfo_eq (e : Endian) (telnet ssh : Option (List Byte)) :
    getAaaLineVtyInfo e true telnet ssh =
      (run e (sessions telnet ssh) 0 (Block.zeroed _)).map Prod.snd := by
  have htelnet := @vtyLoop_eq_run e (telnetStores e) .telnet fun _ _ => rfl
  have hssh := @vtyLoop_eq_run e (sshStores e) .ssh fun _ _ => rfl
  rw [getAaaLineVtyInfo, if_pos rfl, sessions, run_append]
  simp only [htelnet, hssh]
  cases run e ((sessionLines telnet).map .telnet) 0 (Block.zeroed _) with
  | none => rfl
  | some r =>
      simp only [Option.bind_eq_bind, Option.bind_some]
      cases run e ((sessionLines ssh).map .ssh) r.1 r.2 with
      | none => rfl
      | some r => rfl

/-! ## Lines that fit -/

theorem stores_spec {n k : ℕ} (e : Endian) {s : Session} (hfits : s.info.Fits)
    {pre post : List Byte} (hpre : pre.length = k * vtyInfoSize) {b : Block n}
    (hb : b.1 = pre ++ (List.replicate vtyInfoSize 0 ++ post)) :
    ∃ b', b.copyAll (s.stores e k) = some b' ∧ b'.1 = pre ++ (s.info.bytes e ++ post) := by
  cases s with
  | telnet line => exact telnetStores_spec e hpre hb hfits
  | ssh line => exact sshStores_spec e hpre hb hfits

theorem length_bytes {e : Endian} {v : VtyInfo} (h : v.Fits) :
    (v.bytes e).length = vtyInfoSize := by
  simp only [VtyInfo.bytes, List.length_append, length_padRow h.remote, length_padRow h.locally,
    length_bytesOf]
  rfl

/-- Lines that fit fill one entry after the other. -/
theorem run_spec (e : Endian) {ss : List Session} (hfits : ∀ s ∈ ss, s.info.Fits) {k free : ℕ}
    (hfree : ss.length ≤ free) {pre : List Byte} (hpre : pre.length = k * vtyInfoSize)
    {b : VtyBlock} (hb : b.1 = pre ++ List.replicate (free * vtyInfoSize) 0) :
    ∃ b', run e ss k b = some (k + ss.length, b') ∧
      b'.1 = pre ++ (ss.flatMap (fun s => s.info.bytes e) ++
        List.replicate ((free - ss.length) * vtyInfoSize) 0) := by
  induction ss generalizing k free pre b with
  | nil => exact ⟨b, rfl, by simpa using hb⟩
  | cons s ss ih =>
      obtain ⟨free, rfl⟩ : ∃ f, free = f + 1 := ⟨free - 1, by simp at hfree; omega⟩
      have hs := hfits s List.mem_cons_self
      rw [Nat.succ_mul, Nat.add_comm, List.replicate_add] at hb
      obtain ⟨b₁, hcopy, hb₁⟩ := stores_spec e hs hpre hb
      rw [← List.append_assoc] at hb₁
      have hpre' : (pre ++ s.info.bytes e).length = (k + 1) * vtyInfoSize := by
        rw [List.length_append, hpre, length_bytes hs, Nat.succ_mul]
      obtain ⟨b₂, hrun, hb₂⟩ := ih (fun t ht => hfits t (List.mem_cons_of_mem _ ht))
        (by simpa using hfree) hpre' hb₁
      refine ⟨b₂, ?_, ?_⟩
      · rw [run, hcopy, Option.bind_some, hrun, List.length_cons, Nat.add_assoc, Nat.add_comm 1]
      · rw [hb₂, List.flatMap_cons, List.length_cons, Nat.add_sub_add_right]
        simp only [List.append_assoc]

/-! ## Lines behind the last entry -/

theorem sscanf_telnet_eq_nil (line : CStr) :
    sscanf telnetFormat line = [] ↔ ∀ b ∈ line.head?, b = chr ',' := by
  rw [telnetFormat, sscanf, Directive.scan]
  cases line with
  | nil => simp
  | cons b line => by_cases hb : b = chr ',' <;> simp [hb]

theorem stores_eq_nil_iff (e : Endian) (k : ℕ) (s : Session) : s.stores e k = [] ↔ s.Blank := by
  cases s with
  | telnet line =>
      rw [Session.Blank, ← sscanf_telnet_eq_nil, Session.stores, telnetStores, scanStores]
      cases sscanf telnetFormat line <;> simp
  | ssh line => simp [Session.Blank, Session.stores, sshStores]

/-- Every store of a line puts at least one byte into its entry or behind it. -/
theorem stores_bounds {e : Endian} {k : ℕ} {s : Session} {w : ℕ × List Byte}
    (h : w ∈ s.stores e k) : k * vtyInfoSize ≤ w.1 ∧ 0 < w.2.length := by
  have hoffs : ∀ {offs : List ℕ} {vs : List Scanned},
      w ∈ scanStores e (offs.map fun off => k * vtyInfoSize + off) vs →
        k * vtyInfoSize ≤ w.1 ∧ 0 < w.2.length := by
    intro offs vs hw
    obtain ⟨hoff, hlen⟩ := mem_scanStores hw
    obtain ⟨off, -, heq⟩ := List.mem_map.mp hoff
    exact ⟨by omega, hlen⟩
  cases s with
  | telnet line => exact hoffs h
  | ssh line =>
      cases List.mem_append.mp h with
      | inl h => exact hoffs h
      | inr h =>
          rw [List.mem_singleton.mp h]
          exact ⟨Nat.le_add_right _ _, by simp⟩

theorem run_of_blank (e : Endian) {ss : List Session} (h : ∀ s ∈ ss, s.Blank) (k : ℕ)
    (b : VtyBlock) : run e ss k b = some (k + ss.length, b) := by
  induction ss generalizing k with
  | nil => rfl
  | cons s ss ih =>
      have hnil := (stores_eq_nil_iff e k s).mpr (h s List.mem_cons_self)
      have hrest := ih (fun t ht => h t (List.mem_cons_of_mem _ ht)) (k + 1)
      rw [run, hnil, Block.copyAll, List.foldlM_nil]
      exact hrest.trans (by rw [List.length_cons, Nat.add_assoc, Nat.add_comm 1])

/-- Behind the last entry, only lines that store nothing are harmless. -/
theorem blank_of_run {e : Endian} {ss : List Session} {k : ℕ} (hk : MAX_VTY ≤ k) {b : VtyBlock}
    {r : ℕ × VtyBlock} (h : run e ss k b = some r) : ∀ s ∈ ss, s.Blank := by
  induction ss generalizing k b with
  | nil => simp
  | cons s ss ih =>
      rw [run] at h
      obtain ⟨b', hcopy, hrest⟩ := Option.bind_eq_some_iff.mp h
      intro t ht
      cases List.mem_cons.mp ht with
      | inr ht => exact ih (by omega) hrest t ht
      | inl ht =>
          rw [ht, ← stores_eq_nil_iff e k s]
          by_contra hne
          obtain ⟨w, hw⟩ := List.exists_mem_of_ne_nil _ hne
          have hbounds := stores_bounds hw
          have hsize := Nat.mul_le_mul_right vtyInfoSize hk
          have hnot : ¬ Fits (MAX_VTY * vtyInfoSize) (s.stores e k) := fun hfits => by
            have := hfits w hw
            omega
          rw [copyAll_of_not_fits hnot] at hcopy
          cases hcopy

end BcmUtils.Sessions
