import BcmUtils.Verification.VlanPort.Readers

/-! # Round trip of the port VLAN settings

Both readers walk the four strings in step, whatever the lengths of the lists. -/

namespace BcmUtils.VlanPort

open CLib

/-- A list of VLANs that a port may be given. -/
structure VlanList (list : CStr) : Prop where
  semicolon : chr ';' ∉ list
  zero : (0 : Byte) ∉ list
  length_le : list.length ≤ 128

/-- The settings of the port `portid`. -/
structure Given (portid : ℕ) (c : CliPortConf) : Prop where
  portid_eq : c.portid = portid
  one_le : 1 ≤ c.pvid
  pvid_le : c.pvid ≤ 4094
  mode_ne : c.mode ≠ 0
  allow : ∃ list, c.allow = some list ∧ VlanList list
  untag : ∃ list, c.untag = some list ∧ VlanList list

theorem Given.admitted {portid : ℕ} {c : CliPortConf} (h : Given portid c) (hp : portid ≤ 28) :
    Admitted c := by
  have hfits : ∀ list, VlanList list → TrunkFits c.portid list := by
    intro list hlist
    refine ⟨hlist.semicolon, ?_⟩
    have hid : (printNat portid).length ≤ 2 := length_printNat_le (by omega) (by omega)
    have hlen := hlist.length_le
    rw [h.portid_eq]
    change (printNat portid).length + list.length + 2 < 140
    omega
  obtain ⟨allow, hallow, hlist⟩ := h.allow
  obtain ⟨untag, huntag, hlist'⟩ := h.untag
  exact ⟨h.one_le, h.pvid_le, h.mode_ne, ⟨allow, hallow, hfits allow hlist⟩,
    ⟨untag, huntag, hfits untag hlist'⟩⟩

/-- An entry of zero bytes. -/
def PortConfEntry.zeroed : PortConfEntry := ⟨0, 0, Block.zeroed 256, Block.zeroed 256⟩

/-- What `vlan_port_get` is to read of a record: the mode as a number, the lists as strings. -/
structure Agrees (c : CliPortConf) (e : PortConfEntry) : Prop where
  pvid : e.pvid = c.pvid
  mode : e.mode = c.mode.toInt8.toInt - (chr '0').toInt8.toInt
  allow : readStr 0 e.allow.1 = c.allow
  untag : readStr 0 e.untag.1 = c.untag

theorem Given.agrees {portid : ℕ} {c : CliPortConf} (h : Given portid c) {e : PortConfEntry}
    (he : Overwritten (c, PortConfEntry.zeroed) e) : Agrees c e := by
  have hread : ∀ {field : Option CStr} {b : Block 256},
      (∃ list, field = some list ∧ VlanList list) →
      (∃ list, field = some list ∧ b.1 = splice 0 list (Block.zeroed 256).1) →
      readStr 0 b.1 = field := by
    intro field b hfield hb
    obtain ⟨list, rfl, hlist⟩ := hfield
    obtain ⟨list', heq, hb⟩ := hb
    obtain rfl := Option.some.inj heq
    have hlen := hlist.length_le
    rw [hb]
    exact Block.readStr_splice_zeroed hlist.zero (by omega)
  exact ⟨he.pvid, he.mode, hread h.allow he.allow, hread h.untag he.untag⟩

theorem renumber_of_given {portid : ℕ} {cs : List CliPortConf}
    (h : ∀ (i : ℕ) (c : CliPortConf), cs[i]? = some c → Given (portid + i) c) :
    renumber portid cs = cs := by
  induction cs generalizing portid with
  | nil => rfl
  | cons c cs ih =>
      have hc := (h 0 c rfl).portid_eq
      have hrest := @ih (portid + 1) fun i d hd => by
        rw [Nat.add_assoc, Nat.add_comm 1]
        exact h (i + 1) d hd
      rw [renumber, List.zipIdx_cons, List.map_cons, ← renumber, hrest]
      congr 1
      exact congrArg (fun i => { c with portid := i }) hc.symm

theorem agrees_of_overwritten {portid : ℕ} {cs : List CliPortConf} {es : List PortConfEntry}
    (h : ∀ (i : ℕ) (c : CliPortConf), cs[i]? = some c → Given (portid + i) c)
    (hes : List.Forall₂ Overwritten (cs.zip (List.replicate cs.length PortConfEntry.zeroed)) es) :
    List.Forall₂ Agrees cs es := by
  induction cs generalizing portid es with
  | nil =>
      cases hes
      exact List.Forall₂.nil
  | cons c cs ih =>
      rw [List.length_cons, List.replicate_succ, List.zip_cons_cons] at hes
      cases hes with
      | cons he hes =>
          apply List.Forall₂.cons
          · exact (h 0 c rfl).agrees he
          · refine @ih (portid + 1) _ (fun i d hd => ?_) hes
            rw [Nat.add_assoc, Nat.add_comm 1]
            exact h (i + 1) d hd

/-- The entries of all ports, zeroed. -/
def zeroedEntries (B : Build) : PortArray B PortConfEntry :=
  ⟨List.replicate B.PNUM PortConfEntry.zeroed, List.length_replicate⟩

/-- The settings of all ports are read back as they were stored, by the configuration interface
and, with numeric modes, by `vlan_port_get`. -/
theorem vlan_port_round_trip (B : Build) (cs : PortArray B CliPortConf)
    (h : ∀ (i : ℕ) (c : CliPortConf), cs.1[i]? = some c → Given (i + 1) c) (nv : Nvram) :
    ∃ nv', cliNvramConfSetVlanPort B cs nv = some (CLI_SUCCESS, nv') ∧
      (∀ old, cliNvramConfGetVlanPort B (fun _ => true) nv' old =
        some (CLI_SUCCESS, cs.1, nv')) ∧
      ∃ es, vlanPortGet B nv' (zeroedEntries B) = some (0, es) ∧ List.Forall₂ Agrees cs.1 es := by
  have hphy := B.le_phy
  have hgiven : ∀ (i : ℕ) (c : CliPortConf), cs.1[i]? = some c → Given (1 + i) c := by
    intro i c hc
    rw [Nat.add_comm]
    exact h i c hc
  have hadmitted : ∀ c ∈ cs.1, Admitted c := by
    intro c hc
    obtain ⟨i, hi, hget⟩ := List.mem_iff_getElem.mp hc
    rw [cs.2] at hi
    exact (h i c (List.getElem?_eq_some_iff.mpr ⟨_, hget⟩)).admitted (by omega)
  obtain ⟨nv', hset, hst⟩ := cliNvramConfSetVlanPort_spec B cs hadmitted nv
  refine ⟨nv', hset, ?_, ?_⟩
  · intro old
    have hget := cliNvramConfGetVlanPort_eq hadmitted hst old
    rwa [renumber_of_given hgiven] at hget
  · obtain ⟨es, hes, hrest⟩ := vlanPortGet_spec hadmitted hst (zeroedEntries B)
    refine ⟨es, hes, agrees_of_overwritten hgiven ?_⟩
    rwa [cs.2]

/-- Two ports, one with an empty list and one with modes and lists of several characters. -/
theorem vlan_port_round_trip_two :
    ∃ nv', cliNvramConfSetVlanPort ⟨2, 0, 0, by decide, by decide⟩
        ⟨[⟨1, 2, chr '1', some [], some (text "7")⟩,
          ⟨2, 4094, chr '3', some (text "1-8,20"), some []⟩], rfl⟩ (fun _ => []) =
        some (CLI_SUCCESS, nv') ∧
      (∀ old, cliNvramConfGetVlanPort ⟨2, 0, 0, by decide, by decide⟩ (fun _ => true) nv' old =
        some (CLI_SUCCESS, [⟨1, 2, chr '1', some [], some (text "7")⟩,
          ⟨2, 4094, chr '3', some (text "1-8,20"), some []⟩], nv')) ∧
      ∃ es, vlanPortGet ⟨2, 0, 0, by decide, by decide⟩ nv' (zeroedEntries _) = some (0, es) ∧
        List.Forall₂ Agrees [⟨1, 2, chr '1', some [], some (text "7")⟩,
          ⟨2, 4094, chr '3', some (text "1-8,20"), some []⟩] es := by
  refine vlan_port_round_trip ⟨2, 0, 0, by decide, by decide⟩
    ⟨[⟨1, 2, chr '1', some [], some (text "7")⟩,
      ⟨2, 4094, chr '3', some (text "1-8,20"), some []⟩], rfl⟩ ?_ (fun _ => [])
  intro i c hc
  cases i with
  | zero =>
      obtain rfl := Option.some.inj hc
      exact ⟨rfl, by decide, by decide, by decide, ⟨_, rfl, by decide, by decide, by decide⟩,
        ⟨_, rfl, by decide, by decide, by decide⟩⟩
  | succ i =>
      cases i with
      | zero =>
          obtain rfl := Option.some.inj hc
          exact ⟨rfl, by decide, by decide, by decide, ⟨_, rfl, by decide, by decide, by decide⟩,
            ⟨_, rfl, by decide, by decide, by decide⟩⟩
      | succ i => simp at hc

end BcmUtils.VlanPort
