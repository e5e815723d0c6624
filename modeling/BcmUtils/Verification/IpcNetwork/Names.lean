import BcmUtils.Model.SocketNames
import BcmUtils.Verification.Itoa.Decimal

/-! # Which names the socket files get

A process number of six characters fills all six bytes that are copied, so that no terminator
follows it, and what has been copied behind the path shows through. -/

namespace BcmUtils.IpcNetwork

open CLib Itoa

/-! ## Process numbers -/

/-- The process number as text. -/
def pidText (pid : BitVec 32) : CStr := printInt (pidArg pid).toInt

theorem toInt_pidArg (pid : BitVec 32) : (pidArg pid).toInt = (pid.setWidth 16).toInt :=
  BitVec.toInt_signExtend_of_le (by decide)

theorem pidText_bounds (pid : BitVec 32) :
    (pidText pid).length ≤ 6 ∧ (5 < (pidText pid).length ↔ (pid.setWidth 16).toInt ≤ -10000) := by
  have hlt := @BitVec.toInt_lt 16 (pid.setWidth 16)
  have hle := BitVec.le_toInt (pid.setWidth 16)
  rw [pidText, toInt_pidArg]
  generalize (pid.setWidth 16).toInt = v at hlt hle ⊢
  cases v with
  | ofNat n =>
      rw [Int.ofNat_eq_natCast] at hlt
      have hlen := @length_printNat_le n 5 (by decide) (by omega)
      rw [printInt, Int.ofNat_eq_natCast]
      omega
  | negSucc n =>
      rw [Int.negSucc_eq] at hle
      have hlen := @length_printNat_le (n + 1) 5 (by decide) (by omega)
      rw [printInt, List.length_cons, Int.negSucc_eq]
      refine ⟨by omega, fun hlong => ?_, fun hleast => ?_⟩
      · by_contra hsmall
        have hshort := @length_printNat_le (n + 1) 4 (by decide) (by omega)
        omega
      · have hlong := @lt_length_printNat (n + 1) 4 (by omega)
        omega

theorem zero_not_mem_pidText (pid : BitVec 32) : (0 : Byte) ∉ pidText pid :=
  not_mem_printInt (by decide) (by decide) _

theorem pidText_inj {p q : BitVec 32} (h : pidText p = pidText q) :
    p.setWidth 16 = q.setWidth 16 := by
  have hvalue := congrArg atoi h
  rw [pidText, pidText, atoi_printInt (isInt_toInt _), atoi_printInt (isInt_toInt _), toInt_pidArg,
    toInt_pidArg] at hvalue
  exact BitVec.toInt_inj.mp hvalue

/-- `my_itoa` replaces as many bytes as the text has, and the one behind them. -/
theorem myItoa_text (val : BitVec 32) {mid : List Byte}
    (hmid : mid.length = (printInt val.toInt).length) (c : Byte) (post : List Byte) :
    myItoa val (mid ++ c :: post) =
      some ((printInt val.toInt).length, printInt val.toInt ++ 0 :: post) := by
  cases hv : val.toInt with
  | ofNat n =>
      rw [hv] at hmid
      have hn : val.toNat = n := by
        rw [BitVec.toInt_eq_toNat_cond, Int.ofNat_eq_natCast] at hv
        split at hv <;> omega
      have hpos : ¬ Int.ofNat n < 0 := not_lt.mpr (Int.natCast_nonneg n)
      simp only [myItoa, hv, hpos, if_false, Option.bind_eq_bind, Option.bind_some, hn]
      exact @itoa_unsigned n [] mid hmid c post
  | negSucc n =>
      rw [hv] at hmid
      cases mid with
      | nil => simp [printInt] at hmid
      | cons d mid =>
          rw [printInt, List.length_cons, List.length_cons, Nat.succ_inj] at hmid
          have hsign : writeAt 0 [chr '-'] (d :: mid ++ c :: post) =
              some ([chr '-'] ++ (mid ++ c :: post)) :=
            @writeAt_append [] [chr '-'] [d] (mid ++ c :: post) rfl
          have hn := toNat_neg_of_toInt hv
          simp only [myItoa, hv, Int.negSucc_lt_zero, if_true, hsign, Option.map_some,
            Option.bind_eq_bind, Option.bind_some, hn]
          exact @itoa_unsigned (n + 1) [chr '-'] mid hmid c post

/-- `my_itoa` on the array for the process number. -/
theorem myItoa_pidArg (pid : BitVec 32) (pidstr : Block 10) :
    ∃ n post, myItoa (pidArg pid) pidstr.1 = some (n, pidText pid ++ 0 :: post) ∧
      (pidText pid ++ 0 :: post).length = 10 := by
  have hbound : (pidText pid).length < pidstr.1.length := by
    rw [pidstr.2]
    exact (pidText_bounds pid).1.trans_lt (by decide)
  have hmid : (pidstr.1.take (pidText pid).length).length = (pidText pid).length :=
    List.length_take_of_le hbound.le
  have htext := myItoa_text (pidArg pid) hmid pidstr.1[(pidText pid).length]
    (pidstr.1.drop ((pidText pid).length + 1))
  rw [← List.drop_eq_getElem_cons hbound, List.take_append_drop] at htext
  refine ⟨_, _, htext, ?_⟩
  rw [List.length_append, List.length_cons, List.length_drop, pidstr.2]
  rw [pidstr.2] at hbound
  omega

/-! ## The name -/

/-- What stands behind a path in memory shows through behind a process number of six characters. -/
def leftover (path : List Byte) (s : CStr) (pid : BitVec 32) : CStr :=
  if (pidText pid).length ≤ 5 then []
  else ((path.take 89).drop (s.length + 6)).takeWhile (· ≠ 0)

theorem readStr_append_zeros (y : List Byte) (k : ℕ) :
    readStr 0 (y ++ List.replicate (k + 1) 0) = some (y.takeWhile (· ≠ 0)) := by
  rw [readStr, List.drop_zero, if_pos (by simp), List.takeWhile_append]
  split <;> rename_i hlen
  · rw [(List.takeWhile_prefix _).eq_of_length hlen]
    simp [List.replicate_succ]
  · rfl

theorem appendPid_spec {skPath : Block 100} {s x j : List Byte} (pid : BitVec 32)
    (pidstr : Block 10) (hs : (0 : Byte) ∉ s) (hmem : skPath.1 = s ++ 0 :: x) (hx : 5 ≤ x.length)
    (hj : readStr 0 (x.drop 5) = some j) :
    ∃ skPath', appendPid pid pidstr skPath = some skPath' ∧
      readStr 0 skPath'.1 = some (s ++ (pidText pid ++ if (pidText pid).length ≤ 5 then [] else j)) := by
  obtain ⟨n, post, hitoa, hlength⟩ := myItoa_pidArg pid pidstr
  have htext := zero_not_mem_pidText pid
  have hsix := (pidText_bounds pid).1
  have htake : ((pidText pid ++ 0 :: post).take 6).length = 6 := by
    rw [List.length_take, hlength]
    rfl
  have hroom : ((pidText pid ++ 0 :: post).take 6).length ≤ (0 :: x).length := by
    rw [htake, List.length_cons]
    omega
  obtain ⟨skPath', hcopy, hskPath'⟩ := Block.copy_append hmem hroom
  refine ⟨skPath', ?_, ?_⟩
  · rw [appendPid, bind_of_eq hitoa]
    exact (bind_of_eq (readStr_eq_some_iff.mpr ⟨hs, x, hmem⟩) _).trans hcopy
  · rw [hskPath', htake, List.drop_succ_cons, readStr_append_left hs]
    by_cases hshort : (pidText pid).length ≤ 5
    · obtain ⟨k, hk⟩ := Nat.exists_eq_add_of_le hshort
      have hsplit : (pidText pid ++ 0 :: post).take 6 = pidText pid ++ 0 :: post.take k := by
        rw [List.take_append, List.take_of_length_le hsix,
          show 6 - (pidText pid).length = k + 1 by omega, List.take_succ_cons]
      have hread : readStr 0 ((pidText pid ++ 0 :: post.take k) ++ x.drop 5) = some (pidText pid) :=
        readStr_eq_some_iff.mpr ⟨htext, post.take k ++ x.drop 5, by simp⟩
      rw [hsplit, hread, if_pos hshort, List.append_nil, Option.map_some]
    · have hlong : (pidText pid).length = 6 := by omega
      rw [List.take_left' hlong, readStr_append_left htext, hj, if_neg hshort, Option.map_some,
        Option.map_some]

/-- The string at the start of the path, of which 89 bytes are copied. -/
def pathText (path : List Byte) : CStr := (path.take 89).takeWhile (· ≠ 0)

/-- The path as it is copied into the array of zeros. -/
theorem copy_path {path : List Byte} (hlen : 89 ≤ path.length) :
    ∃ skPath x, (Block.zeroed 100).copy 0 (path.take 89) = some skPath ∧
      skPath.1 = pathText path ++ 0 :: x ∧ (0 : Byte) ∉ pathText path ∧
      (pathText path).length + 1 + x.length = 100 ∧
      readStr 0 (x.drop 5) =
        some (((path.take 89).drop ((pathText path).length + 6)).takeWhile (· ≠ 0)) := by
  have htake : (path.take 89).length = 89 := List.length_take_of_le hlen
  obtain ⟨skPath, hcopy, hskPath⟩ := @Block.copy_append 100 [] (path.take 89) _ (Block.zeroed 100)
    rfl (htake.le.trans (by decide))
  rw [List.nil_append, htake] at hskPath
  have hmem : skPath.1 = path.take 89 ++ List.replicate (10 + 1) 0 := hskPath
  have hread : readStr 0 skPath.1 = some (pathText path) := by
    rw [hmem]
    exact readStr_append_zeros _ _
  obtain ⟨hzero, x, hx⟩ := readStr_eq_some_iff.mp hread
  have hlength := skPath.2
  rw [hx, List.length_append, List.length_cons] at hlength
  have hle : (pathText path).length ≤ 89 := by
    rw [← htake]
    exact (List.takeWhile_prefix _).length_le
  refine ⟨skPath, x, hcopy, hx, hzero, by omega, ?_⟩
  have hdrop : x.drop 5 = skPath.1.drop ((pathText path).length + 6) := by
    rw [hx, ← List.drop_drop, List.drop_left]
    rfl
  obtain ⟨k, hk⟩ : ∃ k, 11 - ((pathText path).length + 6 - 89) = k + 1 :=
    ⟨10 - ((pathText path).length + 6 - 89), by omega⟩
  rw [hdrop, hmem, List.drop_append, htake, List.drop_replicate, hk, readStr_append_zeros]

/-- `".sock"` is appended if the array has room for it. -/
theorem append_sock {skPath : Block 100} {s : CStr} (h : readStr 0 skPath.1 = some s) :
    (skPath.copy s.length (text ".sock" ++ [0])).bind (fun b => readStr 0 b.1) =
      if s.length ≤ 94 then some (s ++ text ".sock") else none := by
  obtain ⟨hs, x, hx⟩ := readStr_eq_some_iff.mp h
  have hsock : (text ".sock" ++ [(0 : Byte)]).length = 6 := rfl
  by_cases hfit : s.length ≤ 94
  · have hlength := skPath.2
    rw [hx, List.length_append] at hlength
    have hroom : (text ".sock" ++ [0]).length ≤ (0 :: x).length := by
      rw [hsock]
      omega
    obtain ⟨b', hcopy, hb'⟩ := Block.copy_append hx hroom
    rw [hcopy, Option.bind_some, hb', readStr_append_left hs, if_pos hfit, List.append_assoc]
    rfl
  · have hover : ¬ s.length + (text ".sock" ++ [0]).length ≤ 100 := by
      rw [hsock]
      omega
    rw [Block.copy, dif_neg hover, if_neg hfit]
    rfl

/-- The name of a socket file with the process number. -/
def nameWithPid (path : List Byte) (pid : BitVec 32) : CStr :=
  pathText path ++ (pidText pid ++ leftover path (pathText path) pid) ++ text ".sock"

theorem leftover_of_short {pid : BitVec 32} (h : (pidText pid).length ≤ 5) (path : List Byte)
    (s : CStr) : leftover path s pid = [] := if_pos h

theorem length_leftover_le {path : List Byte} (hlen : 89 ≤ path.length) (s : CStr)
    (pid : BitVec 32) : (leftover path s pid).length ≤ 89 - (s.length + 6) := by
  rw [leftover]
  split
  · exact Nat.zero_le _
  · refine (List.takeWhile_prefix _).length_le.trans ?_
    rw [List.length_drop, List.length_take_of_le hlen]

theorem length_pathText_le {path : List Byte} (hlen : 89 ≤ path.length) :
    (pathText path).length ≤ 89 := by
  refine (List.takeWhile_prefix _).length_le.trans ?_
  rw [List.length_take_of_le hlen]

/-- The name fits unless both the path and the process number are of the greatest length. -/
theorem skFileName_pid {path : List Byte} (hlen : 89 ≤ path.length) (pid : BitVec 32)
    (pidstr : Block 10) :
    skFileName path true pid pidstr =
      if (pathText path).length = 89 ∧ 5 < (pidText pid).length then none
      else some (nameWithPid path pid) := by
  obtain ⟨skPath, x, hcopy, hmem, hzero, hlength, hleft⟩ := copy_path hlen
  have hle := length_pathText_le hlen
  obtain ⟨skPath', happend, hread⟩ := appendPid_spec pid pidstr hzero hmem (by omega) hleft
  have hread' : readStr 0 skPath'.1 =
      some (pathText path ++ (pidText pid ++ leftover path (pathText path) pid)) := hread
  have hname : skFileName path true pid pidstr =
      (skPath'.copy (pathText path ++ (pidText pid ++ leftover path (pathText path) pid)).length
        (text ".sock" ++ [0])).bind fun b => readStr 0 b.1 := by
    rw [skFileName, getSkFileName, if_neg (by omega), bind_of_eq hcopy, if_pos rfl,
      bind_of_eq happend]
    exact congrArg (Option.bind · fun b => readStr 0 b.1)
      (bind_of_eq hread' fun s => skPath'.copy s.length (text ".sock" ++ [0]))
  have hsix := (pidText_bounds pid).1
  have hleftover := length_leftover_le hlen (pathText path) pid
  rw [hname, append_sock hread', List.length_append, List.length_append]
  by_cases hover : (pathText path).length = 89 ∧ 5 < (pidText pid).length
  · rw [if_pos hover, if_neg (by omega)]
  · rw [if_neg hover, if_pos]
    · rfl
    · by_cases hshort : (pidText pid).length ≤ 5
      · rw [leftover_of_short hshort, List.length_nil]
        omega
      · omega

/-! ## Different processes -/

/-- Processes get the same name only if their numbers agree. -/
theorem nameWithPid_inj {path : List Byte} {p q : BitVec 32}
    (h : nameWithPid path p = nameWithPid path q) : p.setWidth 16 = q.setWidth 16 := by
  have hmid := List.append_cancel_left (List.append_cancel_right h)
  have hp := (pidText_bounds p).1
  have hq := (pidText_bounds q).1
  have hlength := congrArg List.length hmid
  rw [List.length_append, List.length_append] at hlength
  -- a text that is shorter than six characters has nothing behind it
  have hsame : (pidText p).length = (pidText q).length := by
    by_cases hshort : (pidText p).length ≤ 5
    · by_cases hshort' : (pidText q).length ≤ 5
      · rw [leftover_of_short hshort, leftover_of_short hshort'] at hlength
        exact hlength
      · rw [leftover_of_short hshort, List.length_nil] at hlength
        omega
    · by_cases hshort' : (pidText q).length ≤ 5
      · rw [leftover_of_short hshort', List.length_nil] at hlength
        omega
      · omega
  exact pidText_inj (List.append_inj hmid hsame).1

theorem nameWithPid_congr {p q : BitVec 32} (h : p.setWidth 16 = q.setWidth 16)
    (path : List Byte) : nameWithPid path p = nameWithPid path q := by
  have harg : pidArg p = pidArg q := by rw [pidArg, h, pidArg]
  have htext : pidText p = pidText q := by rw [pidText, harg, pidText]
  rw [nameWithPid, nameWithPid, leftover, leftover, htext]

/-- All 89 bytes belong to the path exactly if there is no terminator among them. -/
theorem length_pathText_eq_iff {path : List Byte} (hlen : 89 ≤ path.length) :
    (pathText path).length = 89 ↔ (0 : Byte) ∉ path.take 89 := by
  have htake : (path.take 89).length = 89 := List.length_take_of_le hlen
  constructor
  · intro hall
    have heq := (@List.takeWhile_prefix _ (path.take 89) (· ≠ 0)).eq_of_length (hall.trans htake.symm)
    intro hmem
    rw [← heq] at hmem
    simpa using List.mem_takeWhile_imp hmem
  · intro hno
    rw [pathText, List.takeWhile_eq_self_iff.mpr, htake]
    intro b hb
    simpa using fun h : b = 0 => hno (h ▸ hb)

/-- Where the 89 bytes behind the pointer to the path can be read, `get_sk_file_name` leaves its
arrays exactly if there is no terminator among them and the low half of the process number is at
most -10000; and two processes get the same name exactly if their numbers agree in the low half. -/
theorem sk_file_name_of_pid {path : List Byte} (hlen : 89 ≤ path.length) (p q : BitVec 32)
    (u v : Block 10) :
    (skFileName path true p u = none ↔
      (0 : Byte) ∉ path.take 89 ∧ (p.setWidth 16).toInt ≤ -10000) ∧
    ∀ a b, skFileName path true p u = some a → skFileName path true q v = some b →
      (a = b ↔ p.setWidth 16 = q.setWidth 16) := by
  constructor
  · rw [skFileName_pid hlen, ← length_pathText_eq_iff hlen, ← (pidText_bounds p).2]
    split <;> simp_all
  · intro a b ha hb
    rw [skFileName_pid hlen] at ha hb
    split at ha
    case isTrue => simp at ha
    split at hb
    case isTrue => simp at hb
    rw [← Option.some.inj ha, ← Option.some.inj hb]
    exact ⟨nameWithPid_inj, fun h => nameWithPid_congr h path⟩

/-- The path of a client, with zeros behind it. -/
def clientPath : List Byte := text "/tmp/client" ++ List.replicate 78 0

/-- Two processes whose numbers are 65536 apart take the file from each other. -/
theorem sk_file_name_of_pid_shared :
    skFileName clientPath true 4660 (Block.zeroed 10) =
      skFileName clientPath true 70196 (Block.zeroed 10) := by
  have hp : (skFileName clientPath true 4660 (Block.zeroed 10)).isSome = true := by decide +kernel
  have hq : (skFileName clientPath true 70196 (Block.zeroed 10)).isSome = true := by decide +kernel
  have hsame := ((sk_file_name_of_pid (by decide) 4660 70196 (Block.zeroed 10) (Block.zeroed 10)).2 _ _
    (Option.some_get hp).symm (Option.some_get hq).symm).mpr rfl
  rw [← Option.some_get hp, ← Option.some_get hq, hsame]

end BcmUtils.IpcNetwork
