import VirtualMemory.SharedMemory

/-!
# Two views of one segment

Mappings of a segment stay mappings of it through faults, accesses and evictions. Where their
page tables and the shared page are in memory they lead to one frame, and a store through one of
them is what is loaded through another. Only the master tables that the mappings and the segment
have need to be in memory.
-/

namespace VirtualMemory

open Function UserSpace KernelSystem PageTableL2Entry

namespace KernelSystem

/-- A kernel in which a name is free, or that of a segment whose dummy is in memory and has no
mappings itself. -/
structure Sharing (s : KernelSystem) (name : String) : Prop where
  consistent : s.Consistent
  directory : s.registry.Directory
  bounded : s.registry.Bounded
  masters : ∀ n dummy, s.IsSegment name n dummy → s.HasMaster dummy
  unshared : ∀ n dummy, s.IsSegment name n dummy →
    ∀ v e, v.proc = dummy → s.descriptor v = some e → e.getShared = false

/-- The page table of an address is in memory. -/
def TableIn (s : KernelSystem) (h addr : Nat) : Prop :=
  ∃ e, s.slotEntry h (slotOf addr) = some e ∧ e.status = PageTableL1Entry.statusPresent

/-- A page is in memory, and so is its page table. -/
def PageIn (s : KernelSystem) (v : LPage) : Prop := ∃ e, s.descriptor v = some e ∧ e.Resident

namespace Sharing

variable {s s' : KernelSystem} {name : String} {n dummy : Nat} {g g' : Layout}
  {spares : LPage → Fin 1024 → Prop} {outside : KTable → Prop}

theorem houses (hsharing : s.Sharing name) (hsegment : s.IsSegment name n dummy) :
    s.Houses n dummy :=
  ⟨(atIndex_iff hsharing.directory).mpr
    ((isSegment_iff_named.mp hsegment).live hsharing.directory), hsharing.unshared n dummy hsegment⟩

/-- The descriptors of the dummy, wherever they are. -/
theorem desc_unshared (hsharing : s.Sharing name) (hinv : KernelInv g noHand noHand s)
    (hsound : g.Sound) {v : LPage} (hsegment : s.IsSegment name n v.proc) :
    (g.desc v).getShared = false := by
  by_contra hshared
  rw [Bool.not_eq_false] at hshared
  obtain ⟨m, hm⟩ := hinv.hasMaster_iff.mp (hsharing.masters n v.proc hsegment)
  have hnot := hsharing.unshared n v.proc hsegment v _ rfl
    (descriptor_shared hinv hsound hm hshared)
  cases hshared.symm.trans hnot

theorem of_passed (hsharing : s.Sharing name) (hinv : KernelInv g noHand noHand s)
    (hsound : g.Sound) (hinv' : KernelInv g' noHand noHand s')
    (hpassed : Passed spares outside g s g' s')
    (hmasters : ∀ n dummy, s.IsSegment name n dummy → s'.HasMaster dummy) :
    s'.Sharing name ∧ ∀ n dummy, s'.IsSegment name n dummy ↔ s.IsSegment name n dummy := by
  have hregistry := hpassed.objects.registry
  have hsegments : ∀ n dummy, s'.IsSegment name n dummy ↔ s.IsSegment name n dummy := by
    intro n dummy
    rw [isSegment_iff_named, isSegment_iff_named, hregistry]
  have hsound' := hpassed.sound hsound
  refine ⟨⟨⟨g', hinv', hsound'⟩, hregistry ▸ hsharing.directory, hregistry ▸ hsharing.bounded,
    fun n dummy hsegment => hmasters n dummy ((hsegments n dummy).mp hsegment), ?_⟩, hsegments⟩
  rintro n _ hsegment v e rfl he
  have hsegment₀ := (hsegments n v.proc).mp hsegment
  obtain ⟨m', hm'⟩ := hinv'.hasMaster_iff.mp (hmasters n v.proc hsegment₀)
  rw [← hinv'.desc_of_descriptor hsound' hm' he, (hpassed.rights v).shared]
  exact hsharing.desc_unshared hinv hsound hsegment₀

end Sharing

end KernelSystem

namespace Mapping.On

variable {s s' : KernelSystem} {name : String} {n dummy offset levels depth : Nat}
  {m m₁ m₂ : Mapping} {g g' : Layout} {spares : LPage → Fin 1024 → Prop} {outside : KTable → Prop}

/-- The descriptor of an offset of the mapping. -/
theorem desc_eq (hon : m.On n s) (hinv : KernelInv g noHand noHand s) (hsound : g.Sound)
    (hmaster : s.HasMaster m.proc) (hoffset : offset < m.size * pageSize) :
    (g.desc (m.page offset)).getInseg = true ∧ (g.desc (m.page offset)).getShared = true ∧
      (g.desc (m.page offset)).ssegInd.toNat = n ∧
      (g.desc (m.page offset)).block = offset / pageSize := by
  obtain ⟨f, hf⟩ := hinv.hasMaster_iff.mp hmaster
  obtain ⟨e, he, hnames⟩ := hon.pages offset hoffset
  obtain rfl := hinv.desc_of_descriptor (v := m.page offset) hsound hf he
  exact hnames

/-- Where no descriptor of a mapping changes, it stays a mapping. -/
theorem of_desc (hon : m.On n s) (hinv : KernelInv g noHand noHand s) (hsound : g.Sound)
    (hmaster : s.HasMaster m.proc) (hinv' : KernelInv g' noHand noHand s') (hsound' : g'.Sound)
    (hmaster' : s'.HasMaster m.proc)
    (hdesc : ∀ v, v.proc = m.proc → (g.desc v).getInseg = true → (g.desc v).getShared = true →
      g'.desc v = g.desc v) : m.On n s' := by
  refine ⟨hon.aligned, hon.size_le, fun offset hoffset => ?_⟩
  obtain ⟨hinseg, hshared, hnames⟩ := hon.desc_eq hinv hsound hmaster hoffset
  have hsame := hdesc (m.page offset) rfl hinseg hshared
  rw [← hsame] at hinseg hshared hnames
  obtain ⟨f, hf⟩ := hinv'.hasMaster_iff.mp hmaster'
  exact ⟨_, hinv'.descriptor_inseg (v := m.page offset) hsound' hf hinseg, hinseg, hshared,
    hnames⟩

theorem of_passed (hon : m.On n s) (hinv : KernelInv g noHand noHand s) (hsound : g.Sound)
    (hmaster : s.HasMaster m.proc) (hinv' : KernelInv g' noHand noHand s')
    (hpassed : Passed spares outside g s g' s') (hmaster' : s'.HasMaster m.proc) : m.On n s' :=
  hon.of_desc hinv hsound hmaster hinv' (hpassed.sound hsound) hmaster' fun v _ _ hshared =>
    hpassed.shared v hshared

/-- The master tables on the way through a mapping. -/
theorem mastersIn (hhoused : s.Houses n dummy) (hdummy : s.HasMaster dummy)
    (hmaster : s.HasMaster m.proc) (hon : m.On n s) (hoffset : offset < m.size * pageSize) :
    ∀ levels, MastersIn levels s m.proc (m.startAddr + offset)
  | 0 => trivial
  | levels + 1 => by
      refine ⟨hmaster, fun e he hshared d hd => ?_⟩
      obtain ⟨e', he', _, _, hind, _⟩ := hon.pages offset hoffset
      cases he.symm.trans he'
      rw [hind, hhoused.index] at hd
      cases hd
      cases levels with
      | zero => trivial
      | succ levels =>
          refine ⟨hdummy, fun e'' he'' hshared'' => ?_⟩
          cases hshared''.symm.trans (hhoused.unshared _ e'' rfl he'')

/-- With its page table and the shared page in memory, an offset leads to that page. -/
theorem leads_in (hhoused : s.Houses n dummy) (hdummy : s.HasMaster dummy)
    (hinv : KernelInv g noHand noHand s) (hsound : g.Sound) (hon : m.On n s)
    (hmaster : s.HasMaster m.proc) (hoffset : offset < m.size * pageSize)
    (htable : s.TableIn m.proc (m.startAddr + offset)) (hpage : s.PageIn (pageOf dummy offset)) :
    Leads g s (depth + 2) m.proc (m.startAddr + offset) (pageOf dummy offset) := by
  obtain ⟨f, hf⟩ := hinv.hasMaster_iff.mp hmaster
  obtain ⟨f', hf'⟩ := hinv.hasMaster_iff.mp hdummy
  obtain ⟨e, he, hr⟩ := hpage
  obtain rfl := hinv.desc_of_descriptor (v := pageOf dummy offset) hsound hf' he
  obtain ⟨_, hshared, hind, hblock⟩ := hon.desc_eq hinv hsound hmaster hoffset
  obtain ⟨e', he', hpresent⟩ := htable
  obtain ⟨_, he'', hagree⟩ :=
    hinv.slotEntry_agrees (slotOf (m.startAddr + offset)) (KernelInv.not_noMaster hf)
  cases he'.symm.trans he''
  have haddr := hon.ssegAddr_eq hblock
  refine .shared ⟨f, hf⟩ (hagree.present hpresent) hshared (hind ▸ hhoused.index) ?_
  rw [show ssegAddr (g.desc (pageOf m.proc (m.startAddr + offset))) (m.startAddr + offset) = offset
    from haddr]
  obtain ⟨x, hx⟩ := hinv.resident_frame hr
  exact .page ⟨f', hf'⟩ hx hr (hinv.user.clusters.shape _ hr).1

end Mapping.On

/-- A process maps a segment, not its own dummy, to pages that are in no segment, with status OK;
the dummy's master table is in memory when it is done. -/
structure Maps (name : String) (m : Mapping) (s s' : KernelSystem) : Prop where
  master : s.HasMaster m.proc
  clear : s.Clear m.proc m.startAddr m.size
  other : ∀ n, ¬ s.IsSegment name n m.proc
  created : ∃ accType, s.createSharedSegment m.proc m.startAddr m.size name accType = .ok (.ok, s')
  stays : ∀ n dummy, s'.IsSegment name n dummy → s'.HasMaster dummy

namespace Maps

variable {name : String} {m m₁ : Mapping} {s s' : KernelSystem} {n dummy : Nat}

theorem registry_step {accType : AccessType}
    (hcreate : s.createSharedSegment m.proc m.startAddr m.size name accType = .ok (.ok, s')) :
    s.registry.Step (m.connect name accType) s'.registry := by
  have hexec : (m.connect name accType).exec 0 s = .ok s' := by
    simp only [Mapping.connect, KernelOp.exec, hcreate, Outcome.ok_bind]
  exact KernelOp.step_registry hexec

/-- The new mapping is one of the segment that has the name, and the older mappings stay. -/
theorem shared (hsharing : s.Sharing name) (hmaps : Maps name m s s') :
    s'.Sharing name ∧
      (∃ n dummy, s'.IsSegment name n dummy ∧ m.On n s' ∧
        ∀ n' dummy', s.IsSegment name n' dummy' → n' = n ∧ dummy' = dummy) ∧
      ∀ (m₁ : Mapping) n, m₁.On n s → s.HasMaster m₁.proc → s'.HasMaster m₁.proc →
        m₁.On n s' := by
  obtain ⟨g, hinv, hsound⟩ := hsharing.consistent
  obtain ⟨f, hm⟩ := hinv.hasMaster_iff.mp hmaps.master
  have hclear : ∀ v, InRange m.proc m.startAddr m.size v → (g.desc v).getInseg = false := by
    rintro _ ⟨i, hi, rfl⟩
    have hout := hmaps.clear i hi
    rwa [hinv.inSegment_iff hsound hm, Bool.not_eq_true] at hout
  obtain ⟨accType, hcreate⟩ := hmaps.created
  have hmakes : (m.connect name accType).Makes s s' := hcreate
  have hregistry := registry_step hcreate
  have hbounded' := hsharing.bounded.step hsharing.directory hregistry
  have hdirectory' := hsharing.directory.step hregistry
  obtain ⟨g', hinv', hm', hunused, ⟨hok, _⟩ | ⟨_, hnew, hcarried, ⟨n, hfound, hpages⟩, _⟩⟩ :=
    hinv.createSharedSegment_inv hsound hm (fun _ => hclear) hcreate
  · cases hok
  have hsound' := hcarried.sound hsound
  refine ⟨⟨⟨g', hinv', hsound'⟩, hdirectory', hbounded', hmaps.stays, ?_⟩, ?_, ?_⟩
  · -- The dummy is the old one, which the mapping is not made in, or it was made for the segment.
    rintro n' _ hsegment v e rfl he
    obtain ⟨f', hf'⟩ := hinv'.hasMaster_iff.mp (hmaps.stays n' v.proc hsegment)
    rw [← hinv'.desc_of_descriptor hsound' hf' he]
    obtain hold | ⟨hmade, _⟩ :=
      (isSegment_iff_named.mp hsegment).before hsharing.directory hregistry
    · have hold' := isSegment_iff_named.mpr hold
      have hbut : ¬ (InRange m.proc m.startAddr m.size v ∨ MadeSince s v.proc) := by
        rintro (⟨i, _, rfl⟩ | hmade)
        · exact hmaps.other n' hold'
        · exact absurd (hold.dummy_lt hsharing.bounded) (Nat.not_lt.mpr hmade)
      rw [(hcarried.pages v hbut).sameRights.shared]
      exact hsharing.desc_unshared hinv hsound hold'
    · exact hunused.unshared v hmade
  · obtain ⟨dummy, hsegment⟩ := isSegment_of_find hfound
    have hlt := hbounded'.index_lt ((isSegment_iff_named.mp hsegment).live hdirectory')
    refine ⟨n, dummy, hsegment, .of_pages hinv' hsound' hm' (hmakes.aligned rfl) hnew.size_le hlt
      hpages, fun n' dummy' hold => isSegment_inj ?_ hsegment⟩
    exact isSegment_iff_named.mpr
      ((isSegment_iff_named.mp hold).step hsharing.directory id hregistry)
  · intro m₁ n₁ hon hmaster hmaster'
    refine hon.of_desc hinv hsound hmaster hinv' hsound' hmaster' fun v hv hinseg hshared => ?_
    obtain ⟨f', hf'⟩ := hinv.hasMaster_iff.mp hmaster
    have hbut : ¬ (InRange m.proc m.startAddr m.size v ∨ MadeSince s v.proc) := by
      rintro (hrange | hmade)
      · cases hinseg.symm.trans (hclear v hrange)
      · exact hinv.not_madeSince (hv ▸ hf') hmade
    exact KernelInv.desc_of_shared (hcarried.pages v hbut) hshared

end Maps

/-- Two mappings of segment `n`: the same offset of both is at one address, pages of the segment
have frames of their own, and a store through the first mapping, which makes the page dirty, is
what is loaded through the second one later. -/
structure OneMemory (levels n dummy : Nat) (m₁ m₂ : Mapping) (s : KernelSystem) : Prop where
  first : m₁.On n s
  second : m₂.On n s
  frames : ∀ depth o₁ o₂, o₁ < m₁.size * pageSize → o₂ < m₂.size * pageSize →
    s.TableIn m₁.proc (m₁.startAddr + o₁) → s.TableIn m₂.proc (m₂.startAddr + o₂) →
    s.PageIn (pageOf dummy o₁) → s.PageIn (pageOf dummy o₂) →
    ∃ f₁ f₂, s.getPa (depth + 2) m₁.proc (m₁.startAddr + o₁) = .ok (some (f₁, o₁ % pageSize)) ∧
      s.getPa (depth + 2) m₂.proc (m₂.startAddr + o₂) = .ok (some (f₂, o₂ % pageSize)) ∧
      (f₁ = f₂ ↔ o₁ / pageSize = o₂ / pageSize)
  dirty : ∀ o pid t, o < m₁.size * pageSize → s.accessPcb pid = .ok m₁.proc →
    s.access levels pid (m₁.startAddr + o) .write false = .ok (.ok, t) →
    t.StoreCaught levels m₁.proc (m₁.startAddr + o)
  stores : ∀ o pid₁ pid₂ type value loaded t s' ops s'' t', o < m₁.size * pageSize →
    o < m₂.size * pageSize → s.accessPcb pid₁ = .ok m₁.proc →
    s.access levels pid₁ (m₁.startAddr + o) .write false = .ok (.ok, t) →
    s.storeThrough levels pid₁ (m₁.startAddr + o) value = .ok s' →
    Run (PagingOp.Step levels (fun v off => v = pageOf dummy o ∧ off = offsetOf o)
      fun _ => False) s' ops s'' →
    s''.HasMaster m₂.proc → s''.HasMaster dummy → s''.accessPcb pid₂ = .ok m₂.proc →
    s''.loadThrough levels pid₂ (m₂.startAddr + o) type = .ok (some loaded, t') → loaded = value

section Views

variable {levels n dummy : Nat} {name : String} {m₁ m₂ : Mapping} {s : KernelSystem}

/-- A store through one mapping is what is loaded through another one, whatever is evicted and
brought back in between, if nothing else is stored there. -/
theorem Mapping.On.store_seen {o pid₁ pid₂ : Nat} {type : AccessType} {value loaded : BitVec 8}
    {ops : List PagingOp} {t s' s'' t' : KernelSystem} (hsharing : s.Sharing name)
    (hsegment : s.IsSegment name n dummy) (hon₁ : m₁.On n s) (hon₂ : m₂.On n s)
    (hmaster₁ : s.HasMaster m₁.proc) (hmaster₂ : s.HasMaster m₂.proc)
    (ho₁ : o < m₁.size * pageSize) (ho₂ : o < m₂.size * pageSize)
    (hpcb₁ : s.accessPcb pid₁ = .ok m₁.proc)
    (haccess : s.access levels pid₁ (m₁.startAddr + o) .write false = .ok (.ok, t))
    (hstore : s.storeThrough levels pid₁ (m₁.startAddr + o) value = .ok s')
    (hrun : Run (PagingOp.Step levels (fun v off => v = pageOf dummy o ∧ off = offsetOf o)
      fun _ => False) s' ops s'')
    (hmaster₂' : s''.HasMaster m₂.proc) (hdummy' : s''.HasMaster dummy)
    (hpcb₂ : s''.accessPcb pid₂ = .ok m₂.proc)
    (hloaded : s''.loadThrough levels pid₂ (m₂.startAddr + o) type = .ok (some loaded, t')) :
    loaded = value := by
  obtain ⟨g, hinv, hsound⟩ := hsharing.consistent
  have hhoused := hsharing.houses hsegment
  have hdummy := hsharing.masters n dummy hsegment
  have hmasters₁ := hon₁.mastersIn hhoused hdummy hmaster₁ ho₁ levels
  -- The store is in the page of the dummy.
  obtain ⟨v, g₁, p, hresolve, hinv₁, hpassed₁, hp, hbyte⟩ :=
    hinv.storeThrough_granted hsound hmasters₁ hpcb₁ haccess hstore
  have hleads := hon₁.leads hhoused hinv hsound ho₁ hpcb₁ hmasters₁ haccess
  obtain rfl : pageOf dummy o = v :=
    Option.some.inj ((hleads.resolve_eq hinv hsound).symm.trans hresolve)
  rw [hon₁.offsetOf_eq] at hbyte
  -- The byte stays in the page through the run, and the second mapping leads to it.
  obtain ⟨g₂, hinv₂, hpassed₂⟩ :=
    PagingOp.passed_of_run hinv₁ (hpassed₁.sound hsound) hrun
  obtain ⟨p', hp', hbytes⟩ := hpassed₂.bytes _ p hp
  have hpassed : Passed (fun _ _ => False) (fun _ => False) g s g₂ s'' :=
    (hpassed₁.mono (fun _ _ => False.elim) fun _ => False.elim).trans
      (hpassed₂.mono (fun _ _ => False.elim) fun _ => id)
  have hsound₂ := hpassed.sound hsound
  obtain ⟨hsharing₂, hsegments⟩ := hsharing.of_passed hinv hsound hinv₂ hpassed
    fun n' dummy' hsegment' => (isSegment_inj hsegment' hsegment).2 ▸ hdummy'
  have hhoused₂ := hsharing₂.houses ((hsegments n dummy).mpr hsegment)
  have hon₂' := hon₂.of_passed hinv hsound hmaster₂ hinv₂ hpassed hmaster₂'
  have hmasters₂ := hon₂'.mastersIn hhoused₂ hdummy' hmaster₂' ho₂ levels
  obtain ⟨u, haccess₂⟩ := KernelInv.access_of_loaded hpcb₂ hloaded
  have hleads₂ := hon₂'.leads hhoused₂ hinv₂ hsound₂ ho₂ hpcb₂ hmasters₂ haccess₂
  have hgranted : s''.granted levels pid₂ (m₂.startAddr + o) type =
      some (pageOf dummy o, offsetOf o) := by
    simp [granted, hpcb₂, haccess₂, hleads₂.resolve_eq hinv₂ hsound₂, hon₂'.offsetOf_eq]
  have hread := hinv₂.load_memory hsound₂ hpcb₂ hmasters₂ hgranted hloaded
  rw [hinv₂.memory_of_content hsound₂ hdummy' hp', hbytes _ ⟨rfl, rfl⟩, hbyte] at hread
  exact (Option.some.inj hread).symm

/-- A WRITE access through a mapping sets both dirty bits of the page. -/
theorem Mapping.On.write_dirty {m : Mapping} {o pid : Nat} {t : KernelSystem}
    (hsharing : s.Sharing name) (hsegment : s.IsSegment name n dummy) (hon : m.On n s)
    (hmaster : s.HasMaster m.proc) (ho : o < m.size * pageSize)
    (hpcb : s.accessPcb pid = .ok m.proc)
    (haccess : s.access levels pid (m.startAddr + o) .write false = .ok (.ok, t)) :
    t.StoreCaught levels m.proc (m.startAddr + o) := by
  obtain ⟨g, hinv, hsound⟩ := hsharing.consistent
  have hmasters := hon.mastersIn (hsharing.houses hsegment) (hsharing.masters n dummy hsegment)
    hmaster ho levels
  obtain ⟨g', hinv', _, hgranted⟩ := hinv.access_passed hsound hmasters hpcb haccess
  obtain ⟨v, hleads, hmarked⟩ := hgranted rfl
  have hleads' : Leads g' t levels m.proc (m.startAddr + o) v :=
    hleads.congr hmarked.place hmarked.ssegVec hmarked.desc_or
  rw [hleads'.storeCaught_iff hinv', hmarked.block_eq, hmarked.desc, hmarked.usFt]
  simp

/-- A shared segment is one memory. What `create_shared_segment` makes is a mapping of the
segment with the name, and takes no older mapping away; and any two mappings of a segment are
views of one memory, after every run of faults, accesses, stores and evictions. -/
theorem segment_is_one_memory (hsharing : s.Sharing name) :
    (∀ m s', Maps name m s s' → s'.Sharing name ∧
      (∃ n dummy, s'.IsSegment name n dummy ∧ m.On n s' ∧
        ∀ n' dummy', s.IsSegment name n' dummy' → n' = n ∧ dummy' = dummy) ∧
      ∀ (m₁ : Mapping) n, m₁.On n s → s.HasMaster m₁.proc → s'.HasMaster m₁.proc → m₁.On n s') ∧
    ∀ n dummy (m₁ m₂ : Mapping) levels ops s', s.IsSegment name n dummy → m₁.On n s → m₂.On n s →
      s.HasMaster m₁.proc → s.HasMaster m₂.proc →
      Run (PagingOp.Step levels (fun _ _ => False) fun _ => False) s ops s' →
      s'.HasMaster m₁.proc → s'.HasMaster m₂.proc → s'.HasMaster dummy →
        s'.Sharing name ∧ s'.IsSegment name n dummy ∧ OneMemory levels n dummy m₁ m₂ s' := by
  refine ⟨fun m s' hmaps => hmaps.shared hsharing, ?_⟩
  intro n dummy m₁ m₂ levels ops s' hsegment hon₁ hon₂ hmaster₁ hmaster₂ hrun hmaster₁' hmaster₂'
    hdummy'
  obtain ⟨g, hinv, hsound⟩ := hsharing.consistent
  obtain ⟨g', hinv', hpassed⟩ := PagingOp.passed_of_run hinv hsound hrun
  have hsound' := hpassed.sound hsound
  obtain ⟨hsharing', hsegments⟩ := hsharing.of_passed hinv hsound hinv' hpassed
    fun n' dummy' hsegment' => (isSegment_inj hsegment' hsegment).2 ▸ hdummy'
  have hsegment' := (hsegments n dummy).mpr hsegment
  have hhoused := hsharing'.houses hsegment'
  have hon₁' := hon₁.of_passed hinv hsound hmaster₁ hinv' hpassed hmaster₁'
  have hon₂' := hon₂.of_passed hinv hsound hmaster₂ hinv' hpassed hmaster₂'
  refine ⟨hsharing', hsegment', ?_⟩
  constructor
  case first => exact hon₁'
  case second => exact hon₂'
  case frames =>
    intro depth o₁ o₂ ho₁ ho₂ htable₁ htable₂ hpage₁ hpage₂
    exact hon₁'.same_frames hinv' hon₂' ho₁ ho₂
      (hon₁'.leads_in hhoused hdummy' hinv' hsound' hmaster₁' ho₁ htable₁ hpage₁)
      (hon₂'.leads_in hhoused hdummy' hinv' hsound' hmaster₂' ho₂ htable₂ hpage₂)
  case dirty =>
    intro o pid t ho hpcb haccess
    exact hon₁'.write_dirty hsharing' hsegment' hmaster₁' ho hpcb haccess
  case stores =>
    intro o pid₁ pid₂ type value loaded t s₁ ops s₂ t' ho₁ ho₂ hpcb₁ haccess hstore hrun hmaster
      hdummy hpcb₂ hloaded
    exact hon₁'.store_seen hsharing' hsegment' hon₂' hmaster₁' hmaster₂' ho₁ ho₂ hpcb₁ haccess
      hstore hrun hmaster hdummy hpcb₂ hloaded

end Views

/-- A small kernel makes a mapping as `Maps` has it. -/
def Mapping.mapped (name : String) (m : Mapping) (s : KernelSystem) : Option KernelSystem :=
  match s.createSharedSegment m.proc m.startAddr m.size name .readWrite with
  | .ok (.ok, s') =>
      if s.HasMaster m.proc ∧ s.Clear m.proc m.startAddr m.size ∧
        ((s.ssegMap.lookup name).bind s.sscbs).all (fun b => decide (b.dummy ≠ m.proc)) = true ∧
        ((s'.ssegMap.lookup name).bind s'.sscbs).all (fun b => decide (s'.HasMaster b.dummy)) = true
      then some s' else none
  | _ => none

theorem Mapping.maps_of_check {name : String} {m : Mapping} {s s' : KernelSystem}
    (hmapped : m.mapped name s = some s') : Maps name m s s' := by
  unfold Mapping.mapped at hmapped
  split at hmapped
  · rename_i s₁ hcreate
    split at hmapped
    · rename_i hcheck
      obtain ⟨hmaster, hclear, hother, hstays⟩ := hcheck
      cases hmapped
      refine ⟨hmaster, hclear, ?_, ⟨_, hcreate⟩, ?_⟩
      · rintro n ⟨b, sscb, hname, hb, hdummy, _⟩
        rw [hname, Option.bind_some, hb, Option.all_some, decide_eq_true_eq] at hother
        exact hother hdummy
      · rintro n _ ⟨b, sscb, hname, hb, rfl, _⟩
        rw [hname, Option.bind_some, hb, Option.all_some, decide_eq_true_eq] at hstays
        exact hstays
    · cases hmapped
  · cases hmapped

/-- A test of `TableIn`. -/
def tableIn (s : KernelSystem) (h addr : Nat) : Bool :=
  (s.slotEntry h (slotOf addr)).any fun e => decide (e.status = PageTableL1Entry.statusPresent)

theorem tableIn_of_check {s : KernelSystem} {h addr : Nat} (htest : tableIn s h addr = true) :
    s.TableIn h addr := by
  obtain ⟨e, he, hstatus⟩ := (Option.any_eq_true _ _).mp htest
  exact ⟨e, he, of_decide_eq_true hstatus⟩

/-- Both processes of a small kernel map the segment, and the first one faults on its page. -/
def viewedByTwo : Option (KernelSystem × KernelSystem × KernelSystem × KernelSystem) :=
  (smallKernel 1 6 8 []).toOption.bind fun start =>
    (MemoryOp.clients 2 [.call .createProcess, .call .createProcess] start).bind fun s₀ =>
      (firstMapping.mapped "s" s₀).bind fun s₁ => (secondMapping.mapped "s" s₁).bind fun s₂ =>
        (MemoryOp.clients 2 [.paging (.pageFault 0 0)] s₂).map fun s => (s₀, s₁, s₂, s)

/-- Before the first mapping there is no segment of the name. -/
theorem viewedByTwo_run {s₀ s₁ s₂ s : KernelSystem} (hviewed : viewedByTwo = some (s₀, s₁, s₂, s))
    (hfree : s₀.ssegMap.lookup "s" = none) : s₀.Sharing "s" ∧ Maps "s" firstMapping s₀ s₁ ∧
      Maps "s" secondMapping s₁ s₂ ∧ Run (PagingOp.Step 2 (fun _ _ => False) fun _ => False) s₂
        [.pageFault 0 0] s := by
  simp only [viewedByTwo, Option.bind_eq_some_iff, Option.map_eq_some_iff] at hviewed
  obtain ⟨start, hboot, s₀', hrun₀, s₁', hfirst, s₂', hsecond, s', hrun, heq⟩ := hviewed
  cases heq
  have hsizes : (smallKernel 1 6 8 []).toOption.all (fun k =>
      decide (k.userspcSize ≤ 65536) && decide (k.krnlspcSize ≤ 65536)) = true := by decide
  simp only [hboot, Option.all_some, Bool.and_eq_true, decide_eq_true_eq] at hsizes
  have hready : s₀.Ready := (MemoryOp.run_of_clients hrun₀).invariant Ready
    (fun _ _ _ hready hstep => MemoryOp.ready_step hready hstep.1 hstep.2)
    (ready_of_booted (smallKernel_booted (Outcome.toOption_ok hboot)) hsizes.1 hsizes.2)
  have hnone : ∀ n dummy, ¬ s₀.IsSegment "s" n dummy := by
    rintro n dummy ⟨b, _, hname, _⟩
    cases hname.symm.trans hfree
  refine ⟨⟨hready.consistent, hready.directory, hready.bounded,
    fun n dummy hsegment => absurd hsegment (hnone n dummy),
    fun n dummy hsegment => absurd hsegment (hnone n dummy)⟩, Mapping.maps_of_check hfirst,
    Mapping.maps_of_check hsecond, ?_⟩
  cases MemoryOp.run_of_clients hrun with
  | cons hstep hrest =>
      cases hrest
      exact .cons ⟨hstep.1.proceeds, fun _ _ => False.elim, fun _ => False.elim, hstep.1.exec⟩
        (.nil _)

/-- The two processes see the page in one frame. -/
theorem segment_is_one_memory_two : ∃ (s : KernelSystem) (f₁ f₂ : Nat),
    s.getPa 2 0 1 = .ok (some (f₁, 1)) ∧ s.getPa 2 1 1025 = .ok (some (f₂, 1)) ∧ f₁ = f₂ := by
  have hruns : viewedByTwo.any (fun r =>
      decide (r.1.ssegMap.lookup "s" = none) && decide (r.2.1.HasMaster 0) &&
      decide (r.2.2.1.HasMaster 0) && decide (r.2.2.1.HasMaster 1) &&
      decide (r.2.2.2.HasMaster 0) && decide (r.2.2.2.HasMaster 1) &&
      tableIn r.2.2.2 0 1 && tableIn r.2.2.2 1 1025 &&
      ((r.2.2.1.ssegMap.lookup "s").bind r.2.2.1.sscbs).all fun b =>
        decide (r.2.2.2.HasMaster b.dummy) &&
        (r.2.2.2.descriptor (pageOf b.dummy 1)).any fun e => decide e.Resident) = true := by
    decide +kernel
  obtain ⟨⟨s₀, s₁, s₂, s⟩, hviewed, hcheck⟩ := (Option.any_eq_true _ _).mp hruns
  simp only [Bool.and_eq_true, decide_eq_true_eq] at hcheck
  obtain ⟨⟨⟨⟨⟨⟨⟨⟨hfree, hm₁⟩, hm₂⟩, hn₂⟩, hm⟩, hn⟩, htable₁⟩, htable₂⟩, hdummies⟩ := hcheck
  obtain ⟨hsharing₀, hfirst, hsecond, hrun⟩ := viewedByTwo_run hviewed hfree
  obtain ⟨hsharing₁, ⟨n, dummy, hsegment₁, hon₁, _⟩, _⟩ :=
    (segment_is_one_memory hsharing₀).1 _ _ hfirst
  obtain ⟨hsharing₂, ⟨n', dummy', hsegment₂, hon₂, hsame⟩, hkept⟩ :=
    (segment_is_one_memory hsharing₁).1 _ _ hsecond
  obtain ⟨rfl, rfl⟩ := hsame n dummy hsegment₁
  have hdummy : s.HasMaster dummy ∧ s.PageIn (pageOf dummy 1) := by
    obtain ⟨b, sscb, hname, hb, rfl, _⟩ := hsegment₂
    simp only [hname, Option.bind_some, hb, Option.all_some, Bool.and_eq_true,
      decide_eq_true_eq, Option.any_eq_true] at hdummies
    exact hdummies
  obtain ⟨_, _, hone⟩ := (segment_is_one_memory hsharing₂).2 n dummy firstMapping secondMapping 2
    _ s hsegment₂ (hkept firstMapping n hon₁ hm₁ hm₂) hon₂ hm₂ hn₂ hrun hm hn hdummy.1
  have hsize : 1 < firstMapping.size * pageSize ∧ 1 < secondMapping.size * pageSize := by decide
  obtain ⟨f₁, f₂, hpa₁, hpa₂, hiff⟩ := hone.frames 0 1 1 hsize.1 hsize.2
    (tableIn_of_check htable₁) (tableIn_of_check htable₂) hdummy.2 hdummy.2
  exact ⟨s, f₁, f₂, hpa₁, hpa₂, hiff.mpr rfl⟩

end VirtualMemory
