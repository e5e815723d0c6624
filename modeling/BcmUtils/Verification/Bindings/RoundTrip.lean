import BcmUtils.Foundation.Records
import BcmUtils.Verification.Bindings.Encoding
import BcmUtils.Verification.ConfLists.Filling

/-! # Round trip of the bindings and the ARP entries

The blocks are allocated for 46 and 37 bytes a record, less than the widest records take. What
is stored is read back in full, and it is stored exactly if there is room for it. -/

namespace BcmUtils.Bindings

open CLib ConfLists

variable {ρ : Type}

/-- Storing succeeds, and reading into a zeroed struct gives these records. -/
def Restored (set : Option (ℤ × Nvram)) (get : Nvram → Option (ℤ × ListConf ρ × Nvram))
    (xs : List ρ) : Prop :=
  ∃ nv c, set = some (CLI_SUCCESS, nv) ∧ get nv = some (CLI_SUCCESS, c, nv) ∧ Holds c xs

theorem fillList_flatMap {body : CStr → CStr → Option ρ} {render : ρ → CStr} {g : ρ → ρ}
    {xs : List ρ} (hfree : ∀ x ∈ xs, chr ';' ∉ render x)
    (hbody : ∀ x ∈ xs, ∀ t, body (render x ++ chr ';' :: t) (chr ';' :: t) = some (g x))
    (heap : Heap (Node ρ)) :
    ∃ c, fillList body (fun _ => true) (spans (chr ';') (xs.flatMap fun x => render x ++ [chr ';']))
        0 none ⟨heap, 0, none⟩ = some (CLI_SUCCESS, c) ∧ Holds c (xs.map g) := by
  obtain ⟨ret, c, zs, hfill, hholds, hret⟩ := fillList_empty (fun _ => true)
    (mapM_spans_flatMap hfree hbody) heap
  obtain rfl : ret = CLI_SUCCESS := (fillList_ret hfill).mpr fun _ _ => rfl
  obtain rfl := hret rfl
  exact ⟨c, hfill, hholds⟩

theorem length_flatten_flatMap {texts : ρ → List CStr} {width : ρ → ℕ} {xs : List ρ}
    (h : ∀ x ∈ xs, (texts x).flatten.length = width x) :
    (xs.flatMap texts).flatten.length = (xs.map width).sum := by
  induction xs with
  | nil => rfl
  | cons x xs ih =>
      rw [List.flatMap_cons, List.flatten_append, List.length_append, h x List.mem_cons_self,
        ih fun y hy => h y (List.mem_cons_of_mem _ hy), List.map_cons, List.sum_cons]

theorem flatten_flatMap_of_render {texts : ρ → List CStr} {render : ρ → CStr}
    (h : ∀ x, (texts x).flatten = render x ++ [chr ';']) (xs : List ρ) :
    (xs.flatMap texts).flatten = xs.flatMap fun x => render x ++ [chr ';'] := by
  induction xs with
  | nil => rfl
  | cons x xs ih =>
      rw [List.flatMap_cons, List.flatten_append, h, ih, List.flatMap_cons]

/-- A list is restored exactly if there is room for its records. -/
theorem restored_iff {name : CStr} {len : ℕ} {texts : ρ → List CStr} {render : ρ → CStr}
    {width : ρ → ℕ} {g : ρ → ρ} {body : CStr → CStr → Option ρ}
    (htexts : ∀ x, (texts x).flatten = render x ++ [chr ';']) {xs : List ρ}
    (hshort : ∀ x ∈ xs, ∀ y ∈ texts x, y.length < 140)
    (hwidth : ∀ x ∈ xs, (texts x).flatten.length = width x)
    (hfree : ∀ x ∈ xs, chr ';' ∉ render x)
    (hbody : ∀ x ∈ xs, ∀ t, body (render x ++ chr ';' :: t) (chr ';' :: t) = some (g x))
    {get : Nvram → Option (ℤ × ListConf ρ × Nvram)} (heap : Heap (Node ρ))
    (hget : ∀ nv c, fillList body (fun _ => true) (spans (chr ';') (nv name)) 0 none
      ⟨heap, 0, none⟩ = some (CLI_SUCCESS, c) → get nv = some (CLI_SUCCESS, c, nv))
    (nv : Nvram) :
    Restored (setTexts name len xs.length (xs.flatMap texts) nv) get (xs.map g) ↔
      Room name len xs.length (xs.map width).sum := by
  have hpieces : ∀ y ∈ xs.flatMap texts, y.length < 140 := by
    intro y hy
    obtain ⟨x, hx, hmem⟩ := List.mem_flatMap.mp hy
    exact hshort x hx y hmem
  rw [Restored, setTexts_eq name len hpieces nv, length_flatten_flatMap hwidth]
  constructor
  · rintro ⟨nv', c, hset, -⟩
    by_contra hroom
    rw [if_neg hroom] at hset
    exact absurd hset (by simp)
  · intro hroom
    obtain ⟨c, hfill, hholds⟩ := fillList_flatMap hfree hbody heap
    refine ⟨Function.update nv name (xs.flatMap texts).flatten, c, if_pos hroom, ?_, hholds⟩
    apply hget
    rw [Function.update_self, flatten_flatMap_of_render htexts]
    exact hfill

/-! ## Source bindings -/

structure SourceAdmitted (s : CliSourceInfoConf) : Prop where
  mac : s.macAddr.length = 6
  ip : s.ipAddr.length = 4
  port : IsInt s.port
  vlan : IsInt s.vlan
  type : IsInt s.type

/-- The bytes that a binding takes in the text. -/
def sourceWidth (s : CliSourceInfoConf) : ℕ :=
  17 + (inetNtoa s.ipAddr).length + (printInt s.port).length + (printInt s.vlan).length +
    (printInt s.type).length

/-- The record of a binding without its terminator. -/
def sourceText (s : CliSourceInfoConf) : CStr :=
  s.macAddr.flatMap printHex ++ chr '|' :: (inetNtoa s.ipAddr ++ chr '|' ::
    (printInt s.port ++ chr '|' :: (printInt s.vlan ++ chr '|' :: printInt s.type)))

theorem flatten_sourceTexts (s : CliSourceInfoConf) :
    (sourceTexts s).flatten = sourceText s ++ [chr ';'] := by
  simp [sourceTexts, sourceText]

theorem sourceRecord_sourceText {s : CliSourceInfoConf} (h : SourceAdmitted s) (t : CStr) :
    sourceRecord (sourceText s ++ chr ';' :: t) (chr ';' :: t) = some { s with index := 0 } := by
  have hbar : ∀ v : ℤ, chr '|' ∉ printInt v := not_mem_printInt (by decide) (by decide)
  have hmac := cliStr2mac_flatMap [] s.macAddr (chr '|' :: (inetNtoa s.ipAddr ++ chr '|' ::
    (printInt s.port ++ chr '|' :: (printInt s.vlan ++ chr '|' ::
      (printInt s.type ++ chr ';' :: t)))))
  rw [h.mac] at hmac
  have htext : sourceText s ++ chr ';' :: t = s.macAddr.flatMap printHex ++ chr '|' ::
      (inetNtoa s.ipAddr ++ chr '|' :: (printInt s.port ++ chr '|' :: (printInt s.vlan ++
        chr '|' :: (printInt s.type ++ chr ';' :: t)))) := by
    simp [sourceText]
  have hip := length_inetNtoa_le h.ip
  rw [htext]
  apply (bind_of_eq hmac _).trans
  apply (bind_of_eq (strchr_append_cons (not_mem_flatMap_printHex (Or.inl rfl) _) _) _).trans
  apply (bind_of_eq (incr_cons _ _) _).trans
  apply (bind_of_eq (strchr_append_cons (not_mem_inetNtoa (by decide) (by decide) _) _) _).trans
  apply (bind_of_eq (between_append_bind (store_of_lt (by omega))) _).trans
  apply (bind_of_eq (incr_cons _ _) _).trans
  -- the three numbers
  apply (bind_of_eq (strchr_append_cons (hbar s.port) _) _).trans
  apply (bind_of_eq (incr_cons _ _) _).trans
  apply (bind_of_eq (strchr_append_cons (hbar s.vlan) _) _).trans
  apply (bind_of_eq (incr_cons _ _) _).trans
  rw [inetPton_inetNtoa h.ip, atoi_printInt_cons h.port (by decide),
    atoi_printInt_cons h.vlan (by decide), atoi_printInt_cons h.type (by decide)]
  rfl

theorem not_mem_sourceText (s : CliSourceInfoConf) : chr ';' ∉ sourceText s := by
  have hint : ∀ v : ℤ, chr ';' ∉ printInt v := not_mem_printInt (by decide) (by decide)
  have hne : chr ';' ≠ chr '|' := by decide
  simp only [sourceText, List.mem_append, List.mem_cons, not_or]
  exact ⟨not_mem_flatMap_printHex (Or.inr rfl) _, hne, not_mem_inetNtoa (by decide) (by decide) _,
    hne, hint _, hne, hint _, hne, hint _⟩

theorem length_sourceTexts {s : CliSourceInfoConf} (h : SourceAdmitted s) :
    (sourceTexts s).flatten.length = sourceWidth s ∧ ∀ y ∈ sourceTexts s, y.length < 140 := by
  have hmac := length_flatMap_printHex s.macAddr
  rw [h.mac] at hmac
  have hip := length_inetNtoa_le h.ip
  have hport := length_printInt_le h.port
  have hvlan := length_printInt_le h.vlan
  have htype := length_printInt_le h.type
  constructor
  · rw [flatten_sourceTexts, sourceWidth]
    simp only [sourceText, List.length_append, List.length_cons, List.length_nil]
    omega
  · intro y hy
    simp only [sourceTexts, List.mem_cons, List.not_mem_nil, or_false] at hy
    rcases hy with rfl | rfl
    · omega
    · simp only [List.length_append, List.length_cons, List.length_nil]
      omega

theorem source_binding_restored_iff {xs : List CliSourceInfoConf}
    (h : ∀ s ∈ xs, SourceAdmitted s) (nv : Nvram) (heap : Heap (Node CliSourceInfoConf)) :
    Restored (cliNvramConfSetSourceBinding ⟨xs.length, xs⟩ nv)
        (fun nv => cliNvramConfGetSourceBinding (fun _ => true) nv (.zeroed heap))
        (xs.map fun s => { s with index := 0 }) ↔
      Room (text "source_binding") SOURCE_STRUCT_LEN xs.length (xs.map sourceWidth).sum := by
  refine restored_iff flatten_sourceTexts (fun s hs => (length_sourceTexts (h s hs)).2)
    (fun s hs => (length_sourceTexts (h s hs)).1) (fun s _ => not_mem_sourceText s)
    (fun s hs t => sourceRecord_sourceText (h s hs) t) heap (fun nv c hfill => ?_) nv
  rw [cliNvramConfGetSourceBinding]
  exact bind_of_eq hfill _

/-! ## ARP entries -/

/-- A text for an array of 20 bytes, without the separators. -/
structure ArpText (s : CStr) : Prop where
  length_le : s.length ≤ 19
  bar : chr '|' ∉ s
  semicolon : chr ';' ∉ s
  zero : (0 : Byte) ∉ s

structure ArpAdmitted (a : CliStaticArpList) : Prop where
  ip : ArpText a.staticIp
  mac : ArpText a.staticMac

/-- The bytes that an entry takes in the text. -/
def arpWidth (a : CliStaticArpList) : ℕ := a.staticIp.length + a.staticMac.length + 2

/-- The record of an entry without its terminator. -/
def arpText (a : CliStaticArpList) : CStr := a.staticIp ++ chr '|' :: a.staticMac

theorem flatten_staticArpTexts (a : CliStaticArpList) :
    (staticArpTexts a).flatten = arpText a ++ [chr ';'] := by
  simp [staticArpTexts, arpText]

theorem staticArpRecord_arpText {a : CliStaticArpList} (h : ArpAdmitted a) (t : CStr) :
    staticArpRecord (arpText a ++ chr ';' :: t) (chr ';' :: t) =
      some { a with vlan := 0, port := 0 } := by
  have hcopy : ∀ {s : CStr}, ArpText s → copyField 20 s = some s := fun hs =>
    if_pos (hs.length_le.trans (by omega))
  have htext : arpText a ++ chr ';' :: t =
      a.staticIp ++ chr '|' :: (a.staticMac ++ chr ';' :: t) := by
    simp [arpText]
  have hsemicolon : strchr (chr ';') (chr '|' :: (a.staticMac ++ chr ';' :: t)) =
      some (chr ';' :: t) := by
    rw [strchr_cons_of_ne (by decide), strchr_append_cons h.mac.semicolon]
  rw [htext]
  apply (bind_of_eq (strchr_append_cons h.ip.bar _) _).trans
  apply (bind_of_eq (between_append_bind (hcopy h.ip)) _).trans
  apply (bind_of_eq hsemicolon _).trans
  apply (bind_of_eq (incr_cons _ _) _).trans
  apply (bind_of_eq (between_append_bind (hcopy h.mac)) _).trans
  rfl

theorem static_arp_restored_iff {xs : List CliStaticArpList} (h : ∀ a ∈ xs, ArpAdmitted a)
    (nv : Nvram) (heap : Heap (Node CliStaticArpList)) :
    Restored (cliNvramConfSetStaticArp ⟨xs.length, xs⟩ nv)
        (fun nv => cliNvramConfGetStaticArp (fun _ => true) nv (.zeroed heap))
        (xs.map fun a => { a with vlan := 0, port := 0 }) ↔
      Room (text "static_arp_list") STATIC_ARP_LEN xs.length (xs.map arpWidth).sum := by
  have hlen : ∀ a, (staticArpTexts a).flatten.length = arpWidth a := by
    intro a
    rw [flatten_staticArpTexts, arpWidth]
    simp only [arpText, List.length_append, List.length_cons, List.length_nil]
    omega
  have hfree : ∀ a ∈ xs, chr ';' ∉ arpText a := by
    intro a ha
    simp only [arpText, List.mem_append, List.mem_cons, not_or]
    exact ⟨(h a ha).ip.semicolon, by decide, (h a ha).mac.semicolon⟩
  have hshort : ∀ a ∈ xs, ∀ y ∈ staticArpTexts a, y.length < 140 := by
    intro a ha y hy
    have hip := (h a ha).ip.length_le
    have hmac := (h a ha).mac.length_le
    obtain rfl := List.mem_singleton.mp hy
    simp only [List.length_append, List.length_cons, List.length_nil]
    omega
  refine restored_iff flatten_staticArpTexts hshort (fun a _ => hlen a) hfree
    (fun a ha t => staticArpRecord_arpText (h a ha) t) heap (fun nv c hfill => ?_) nv
  rw [cliNvramConfGetStaticArp]
  exact bind_of_eq hfill _

/-! ## Both lists -/

/-- Bindings and ARP entries are restored exactly if their records are shorter than the block
allocated by their number and leave room for the name in the message. -/
theorem binding_lists_restored_iff (nv : Nvram) :
    (∀ (xs : List CliSourceInfoConf) (heap : Heap (Node CliSourceInfoConf)),
      (∀ s ∈ xs, SourceAdmitted s) →
        (Restored (cliNvramConfSetSourceBinding ⟨xs.length, xs⟩ nv)
            (fun nv => cliNvramConfGetSourceBinding (fun _ => true) nv (.zeroed heap))
            (xs.map fun s => { s with index := 0 }) ↔
          Room (text "source_binding") SOURCE_STRUCT_LEN xs.length (xs.map sourceWidth).sum)) ∧
    (∀ (xs : List CliStaticArpList) (heap : Heap (Node CliStaticArpList)),
      (∀ a ∈ xs, ArpAdmitted a) →
        (Restored (cliNvramConfSetStaticArp ⟨xs.length, xs⟩ nv)
            (fun nv => cliNvramConfGetStaticArp (fun _ => true) nv (.zeroed heap))
            (xs.map fun a => { a with vlan := 0, port := 0 }) ↔
          Room (text "static_arp_list") STATIC_ARP_LEN xs.length (xs.map arpWidth).sum)) :=
  ⟨fun _ heap h => source_binding_restored_iff h nv heap,
    fun _ heap h => static_arp_restored_iff h nv heap⟩

/-- Two bindings and one entry for which there is room. -/
theorem binding_lists_restored_plain :
    Restored (cliNvramConfSetSourceBinding ⟨2, [⟨1, [0, 0, 0, 0, 0, 1], [192, 168, 1, 100], 1, 4094, 1⟩,
          ⟨2, [0xa0, 0xff, 0x1b, 0, 0, 1], [10, 0, 0, 1], -1, 1, 0⟩]⟩ (fun _ => []))
        (fun nv => cliNvramConfGetSourceBinding (fun _ => true) nv (.zeroed Heap.empty))
        [⟨0, [0, 0, 0, 0, 0, 1], [192, 168, 1, 100], 1, 4094, 1⟩,
          ⟨0, [0xa0, 0xff, 0x1b, 0, 0, 1], [10, 0, 0, 1], -1, 1, 0⟩] ∧
      Restored (cliNvramConfSetStaticArp
          ⟨1, [⟨text "1.1.1.1", text "00:00:00:00:00:00", 7, 3⟩]⟩ (fun _ => []))
        (fun nv => cliNvramConfGetStaticArp (fun _ => true) nv (.zeroed Heap.empty))
        [⟨text "1.1.1.1", text "00:00:00:00:00:00", 0, 0⟩] := by
  obtain ⟨hsource, harp⟩ := binding_lists_restored_iff (fun _ => [])
  constructor
  · refine (hsource [⟨1, [0, 0, 0, 0, 0, 1], [192, 168, 1, 100], 1, 4094, 1⟩,
      ⟨2, [0xa0, 0xff, 0x1b, 0, 0, 1], [10, 0, 0, 1], -1, 1, 0⟩] Heap.empty ?_).mpr (by decide)
    intro s hs
    simp only [List.mem_cons, List.not_mem_nil, or_false] at hs
    rcases hs with rfl | rfl <;> exact ⟨rfl, rfl, by decide, by decide, by decide⟩
  · refine (harp [⟨text "1.1.1.1", text "00:00:00:00:00:00", 7, 3⟩] Heap.empty ?_).mpr (by decide)
    intro a ha
    obtain rfl := List.mem_singleton.mp ha
    exact ⟨⟨by decide, by decide, by decide, by decide⟩, ⟨by decide, by decide, by decide, by decide⟩⟩

/-- One binding with the longest numbers, and one entry with the longest texts, write 65 and 40
bytes to blocks of 46 and 37. -/
theorem binding_lists_overflow :
    let s : CliSourceInfoConf := ⟨0, [0, 0, 0, 0, 0, 1], [255, 255, 255, 255], -2147483648,
      -2147483648, -2147483648⟩
    let a : CliStaticArpList := ⟨text "192.168.100.200/255", text "00:00:00:00:00:00-1", 0, 0⟩
    SourceAdmitted s ∧ cliNvramConfSetSourceBinding ⟨1, [s]⟩ (fun _ => []) = none ∧
      ArpAdmitted a ∧ cliNvramConfSetStaticArp ⟨1, [a]⟩ (fun _ => []) = none := by
  refine ⟨⟨rfl, rfl, by decide, by decide, by decide⟩, by decide +kernel,
    ⟨⟨by decide, by decide, by decide, by decide⟩, ⟨by decide, by decide, by decide, by decide⟩⟩, ?_⟩
  decide +kernel

end BcmUtils.Bindings
