import VirtualMemory.Cloning

/-!
# Shared segments

A shared segment is a private segment of a process of its own, the dummy, which is mapped
by descriptors that name the segment and the page there. `create_shared_segment` makes the
dummy with the first mapping of a name; whatever it evicts on the way, the pages of other
processes stay what they were.
-/

namespace VirtualMemory

open Function UserSpace KernelSystem PageTableL2Entry

/-- The same system with other shared segments on record. -/
def KernelSystem.withSegments (s : KernelSystem) (ssegVec : ConsVec Nat)
    (ssegMap : List (String × Nat)) (sscbs : Nat → Option SsegControlBlock)
    (nextSscb ssegCount : Nat) : KernelSystem :=
  { s with
    ssegVec := ssegVec
    ssegMap := ssegMap
    sscbs := sscbs
    nextSscb := nextSscb
    ssegCount := ssegCount }

namespace KernelInv

variable {g : Layout} {hand handC : Nat → Prop} {s s' : KernelSystem}

/-- The records of shared segments are nothing to the tables. -/
theorem withSegments (hinv : KernelInv g hand handC s) (ssegVec : ConsVec Nat)
    (ssegMap : List (String × Nat)) (sscbs : Nat → Option SsegControlBlock)
    (nextSscb ssegCount : Nat) :
    KernelInv g hand handC (s.withSegments ssegVec ssegMap sscbs nextSscb ssegCount) :=
  ⟨hinv.user, hinv.krnl_le, hinv.nodup, hinv.frames, hinv.typed, hinv.image, hinv.entries,
    hinv.tables, hinv.masters, hinv.stored, hinv.newborn, hinv.live, hinv.fresh⟩

theorem carried_withSegments (g : Layout) (s : KernelSystem) (ssegVec : ConsVec Nat)
    (ssegMap : List (String × Nat)) (sscbs : Nat → Option SsegControlBlock)
    (nextSscb ssegCount : Nat) :
    OnlyPaged g s g (s.withSegments ssegVec ssegMap sscbs nextSscb ssegCount) :=
  ⟨fun _ _ => ⟨.inl rfl, rfl⟩, fun t f _ hpin => by cases t <;> exact hpin, id, fun _ _ _ => rfl,
    fun _ _ hnone => ⟨hnone, fun _ => rfl⟩, fun _ _ haway => ⟨haway, fun _ => rfl⟩⟩

theorem carried_setPcb (g : Layout) (s : KernelSystem) (h : Nat) (p : KernelProcess) :
    OnlyPaged g s g (s.setPcb h p) :=
  ⟨fun _ _ => ⟨.inl rfl, rfl⟩, fun t f _ hpin => by cases t <;> exact hpin, id, fun _ _ _ => rfl,
    fun _ _ hnone => ⟨hnone, fun _ => rfl⟩, fun _ _ haway => ⟨haway, fun _ => rfl⟩⟩

end KernelInv

/-- The objects of the kernel once a shared segment with its dummy was added. -/
structure SegmentAdded (name : String) (dummy : Nat) (s s' : KernelSystem) : Prop where
  handle : dummy = s.nextPcb
  pcbs : ∀ h', h' ≠ dummy → (s'.pcbs h').map KernelProcess.rest = (s.pcbs h').map KernelProcess.rest
  sscb : ∃ p, s'.pcbs dummy = some p ∧ p.sscb = some s.nextSscb
  ssegVec : s'.ssegVec = (s.ssegVec.insert dummy).2
  ssegMap : s'.ssegMap = (name, s.nextSscb) :: s.ssegMap
  sscbs : s'.sscbs =
    update s.sscbs s.nextSscb (some ⟨dummy, (s.ssegVec.insert dummy).1, []⟩)
  nextSscb : s'.nextSscb = s.nextSscb + 1

theorem SegmentAdded.trans {name : String} {dummy : Nat} {s s' s'' : KernelSystem}
    (hadded : SegmentAdded name dummy s s') (hobjects : SameObjects s' s'') :
    SegmentAdded name dummy s s'' where
  handle := hadded.handle
  pcbs h' hh := (hobjects.pcbs h').trans (hadded.pcbs h' hh)
  sscb := by
    obtain ⟨p, hp, hsscb⟩ := hadded.sscb
    have hrest := hobjects.pcbs dummy
    rw [hp] at hrest
    obtain ⟨p', hp', heq⟩ := Option.map_eq_some_iff.mp hrest
    exact ⟨p', hp', (congrArg Prod.snd heq).trans hsscb⟩
  ssegVec := hobjects.ssegVec.trans hadded.ssegVec
  ssegMap := hobjects.ssegMap.trans hadded.ssegMap
  sscbs := hobjects.sscbs.trans hadded.sscbs
  nextSscb := hobjects.nextSscb.trans hadded.nextSscb

/-- A process that an operation of another process may make: it has a handle of its own. -/
def MadeSince (s : KernelSystem) (h : Nat) : Prop := s.nextPcb ≤ h

/-- The processes made since map nothing, and their pages contain nothing. -/
structure Unused (s : KernelSystem) (g' : Layout) (s' : KernelSystem) : Prop where
  unshared : ∀ v : LPage, MadeSince s v.proc → (g'.desc v).getShared = false
  empty : ∀ v : LPage, MadeSince s v.proc → s'.content (g'.desc v) = none

theorem Unused.keep {g g' : Layout} {s₀ s s' : KernelSystem} (hunused : Unused s₀ g s)
    (hkept : ∀ v : LPage, MadeSince s₀ v.proc →
      Kept s.toUserSpace (g.desc v) s'.toUserSpace (g'.desc v)) : Unused s₀ g' s' where
  unshared v hv := (hkept v hv).sameRights.shared.trans (hunused.unshared v hv)
  empty v hv := (hkept v hv).2.trans (hunused.empty v hv)

namespace KernelInv

variable {g : Layout} {s s' : KernelSystem} {dummy size : Nat} {name : String}
  {accType : AccessType} {status : Status}

theorem unused_start (hinv : KernelInv g noHand noHand s) : Unused s g s := by
  have hblank : ∀ v : LPage, MadeSince s v.proc → g.desc v = ⟨0#16, 0#8, 0#8⟩ := by
    intro v hv
    rw [Layout.desc, hinv.cells_blank (.inl ((hinv.fresh _ hv).2 _))]
    rfl
  refine ⟨fun v hv => ?_, fun v hv => ?_⟩
  · rw [hblank v hv]
    decide
  · rw [hblank v hv]
    exact content_none (by decide) (by decide)

/-- What making a shared segment leaves alone. -/
abbrev Beside (g : Layout) (s : KernelSystem) (g' : Layout) (s' : KernelSystem) : Prop :=
  Carried (fun t => t.IsTable ∨ ∃ x, MadeSince s x ∧ t = .master x) (MadeSince s)
    (fun v => MadeSince s v.proc) g s g' s'

/-- `KernelSystem::create_shared_segment`: there are too many, or there is a new process
with one segment. -/
theorem createDummy_inv (hinv : KernelInv g noHand noHand s) (hsound : g.Sound)
    (hcreate : s.createDummy size name accType = .ok (status, s')) :
    (status = .trap ∧ s' = s) ∨
      ∃ g' dummy m, KernelInv g' noHand noHand s' ∧ Beside g s g' s' ∧
        g'.place (.master dummy) = .frame m ∧ SegmentAdded name dummy s s' ∧
        (status = .ok → ∀ i, i < size →
          NewPage accType (g'.desc (pageOf dummy (pageAddr 0 i)))) ∧
        Unused s g' s' := by
  unfold createDummy at hcreate
  split at hcreate
  · cases hcreate
    exact .inl ⟨rfl, rfl⟩
  · right
    obtain ⟨⟨dummy, s₁⟩, hprocess, hrest⟩ := Outcome.bind_ok hcreate
    have hinv₀ := hinv.withSegments s.ssegVec ((name, s.nextSscb) :: s.ssegMap) s.sscbs
      (s.nextSscb + 1) s.ssegCount
    obtain ⟨g₁, m, hinv₁, hm₁, hcarried₁, hadded, hslots, hfree⟩ :=
      hinv₀.createProcess_inv hsound hprocess
    obtain ⟨p, hpcb, hp, hat⟩ := hinv₁.pcb_ok hm₁
    have hsound₁ := hcarried₁.sound hsound
    have hmade : MadeSince s dummy := Nat.le_of_eq hadded.handle.symm
    let s₂ := (s₁.withSegments (s₁.ssegVec.insert dummy).2 s₁.ssegMap
      (update s₁.sscbs s.nextSscb (some ⟨dummy, (s₁.ssegVec.insert dummy).1, []⟩)) s₁.nextSscb
      (s₁.ssegCount + 1)).setPcb dummy { p with sscb := some s.nextSscb }
    have hinv₂ : KernelInv g₁ noHand noHand s₂ := (hinv₁.withSegments _ _ _ _ _).setPcb hp
      (fun _ hat => ⟨hat.valid, hat.masterTable, hat.ptl1Ptr, hat.stPtr⟩) rfl rfl
    have hcarried₂ : OnlyPaged g₁ s₁ g₁ s₂ :=
      (carried_withSegments ..).trans (carried_setPcb ..)
    have hsegment : s₂.createSegment dummy 0 size accType = .ok (status, s') := by
      obtain ⟨p', hp', hsegment⟩ := Outcome.bind_ok hrest
      cases hpcb.symm.trans (show s₁.pcb dummy = .ok p' from hp')
      exact hsegment
    have hadded₂ : SegmentAdded name dummy s s₂ := by
      refine ⟨hadded.handle, fun h' hh => ?_, ⟨_, update_self .., rfl⟩, ?_, hadded.ssegMap, ?_,
        hadded.nextSscb⟩
      · simpa [s₂, KernelSystem.setPcb, KernelSystem.withSegments, hh] using hadded.pcbs h' hh
      · exact congrArg (fun vec => (ConsVec.insert vec dummy).2) hadded.ssegVec
      · have hvec : s₁.ssegVec = s.ssegVec := hadded.ssegVec
        have hsscbs : s₁.sscbs = s.sscbs := hadded.sscbs
        simp [s₂, KernelSystem.setPcb, KernelSystem.withSegments, hvec, hsscbs]
    obtain ⟨g₃, hinv₃, hm₃, hobjects, hcreated⟩ := hinv₂.createSegment_inv hsound₁ hm₁
      (fun _ v hv => by
        obtain ⟨i, _, rfl⟩ := hv
        exact hinv₂.inseg_nowhere (.inl (hslots _))) hsegment
    have hbeside : Beside g s g₁ s₂ :=
      ((carried_withSegments g s ..).carried.trans (hcarried₁.mono (fun t => ?_) (fun _ hx => ?_)
        (fun _ => False.elim))).trans hcarried₂.carried
    have hunused : Unused s g₁ s₂ := hinv.unused_start.keep fun v _ =>
      ((carried_withSegments g s ..).pages v id).trans
        ((hcarried₁.pages v id).trans (hcarried₂.pages v id))
    refine ⟨g₃, dummy, m, hinv₃, hbeside.trans ?_, hm₃, hadded₂.trans hobjects,
      fun hok i hi => ?_, ?_⟩
    · obtain ⟨_, hcarried₃, _⟩ | ⟨_, _, hcarried₃, _⟩ := hcreated
      · refine hcarried₃.mono (fun t => ?_) (fun _ => False.elim) (fun _ => False.elim)
        rintro (rfl | ht)
        · exact .inr ⟨dummy, hmade, rfl⟩
        · exact .inl ht
      · refine hcarried₃.mono (fun t => ?_) (fun _ hx => hx ▸ hmade) (fun v hv => ?_)
        · rintro (rfl | ht)
          · exact .inr ⟨dummy, hmade, rfl⟩
          · exact .inl ht
        · obtain ⟨i, _, rfl⟩ := hv
          exact hmade
    · obtain ⟨rfl, _⟩ | ⟨_, _, _, hpages⟩ := hcreated
      · cases hok
      · exact (hpages i hi).1
    · obtain ⟨_, hcarried₃, _⟩ | ⟨_, _, hcarried₃, hpages⟩ := hcreated
      · exact hunused.keep fun v _ => hcarried₃.pages v id
      · refine ⟨fun v hv => ?_, fun v hv => ?_⟩
        · by_cases hrange : InRange dummy 0 size v
          · obtain ⟨i, hi, rfl⟩ := hrange
            exact (hpages i hi).1.shared
          · exact (hcarried₃.pages v hrange).sameRights.shared.trans (hunused.unshared v hv)
        · by_cases hrange : InRange dummy 0 size v
          · obtain ⟨i, hi, rfl⟩ := hrange
            exact (hpages i hi).2
          · exact (hcarried₃.pages v hrange).2.trans (hunused.empty v hv)
    · rintro (rfl | ht)
      · exact .inr ⟨dummy, hmade, rfl⟩
      · exact .inl ht
    · exact hx ▸ hmade

/-- The name is that of a shared segment, or a segment of that name is made. -/
theorem findOrCreate_inv {found : Option Nat} (hinv : KernelInv g noHand noHand s)
    (hsound : g.Sound) (hfind : s.findOrCreate size name accType = .ok (found, s')) :
    ∃ g', KernelInv g' noHand noHand s' ∧ Beside g s g' s' ∧
      (found ≠ none → s.ssegMap.lookup name = none → ∀ i, i < size →
        NewPage accType (g'.desc (pageOf s.nextPcb (pageAddr 0 i)))) ∧
      Unused s g' s' := by
  unfold findOrCreate at hfind
  obtain ⟨before, hbefore, hrest⟩ := Outcome.bind_ok hfind
  split at hrest
  · cases hrest
    refine ⟨g, hinv, .refl g s, fun _ hnone => ?_, hinv.unused_start⟩
    simp [sharedSegmentFind, hnone] at hbefore
  · obtain ⟨⟨status, s₁⟩, hcreate, hrest⟩ := Outcome.bind_ok hrest
    have hdummy : ∃ g', KernelInv g' noHand noHand s₁ ∧ Beside g s g' s₁ ∧
        (status = .ok → ∀ i, i < size →
          NewPage accType (g'.desc (pageOf s.nextPcb (pageAddr 0 i)))) ∧
        Unused s g' s₁ := by
      obtain ⟨rfl, rfl⟩ | ⟨g', dummy, m, hinv', hbeside, _, hadded, hpages, hunused⟩ :=
        hinv.createDummy_inv hsound hcreate
      · exact ⟨g, hinv, .refl g s₁, (fun heq => by cases heq), hinv.unused_start⟩
      · exact ⟨g', hinv', hbeside, hadded.handle ▸ hpages, hunused⟩
    obtain ⟨g', hinv', hbeside, hpages, hunused⟩ := hdummy
    simp only at hrest
    split at hrest
    · obtain ⟨_, _, hret⟩ := Outcome.bind_ok hrest
      cases hret
      exact ⟨g', hinv', hbeside, fun _ _ => hpages ‹_›, hunused⟩
    · cases hrest
      exact ⟨g', hinv', hbeside, fun hfound => absurd rfl hfound, hunused⟩

end KernelInv

section Find

variable {s s' : KernelSystem} {size ssegInd : Nat} {accType : AccessType}

theorem KernelSystem.findOrCreate_found {name : String}
    (hfind : s.findOrCreate size name accType = .ok (some ssegInd, s')) :
    s'.sharedSegmentFind name = .ok (some ssegInd) := by
  obtain ⟨before, hbefore, hrest⟩ := Outcome.bind_ok hfind
  cases before with
  | some n =>
      cases hrest
      exact hbefore
  | none =>
      obtain ⟨⟨status, s₁⟩, _, hrest⟩ := Outcome.bind_ok hrest
      dsimp only at hrest
      split at hrest
      · obtain ⟨found, hfound, hret⟩ := Outcome.bind_ok hrest
        cases hret
        exact hfound
      · cases hrest

theorem SameObjects.sharedSegmentFind (hobjects : SameObjects s s') (name : String) :
    s'.sharedSegmentFind name = s.sharedSegmentFind name := by
  unfold KernelSystem.sharedSegmentFind
  rw [hobjects.ssegMap, hobjects.sscbs]

/-- Who uses a segment does not matter to finding it. -/
theorem KernelSystem.sharedSegmentFind_connect {h entry n : Nat} (name : String)
    (hconnect : s.connectSharedSegment h n entry = .ok s') :
    s'.sharedSegmentFind name = s.sharedSegmentFind name := by
  obtain ⟨b, sscb, hblock, rfl⟩ := connectSharedSegment_ok hconnect
  have hb : s.sscbs b = some sscb := by
    unfold ssegBlock at hblock
    obtain ⟨_, _, hrest⟩ := Outcome.bind_ok hblock
    obtain ⟨_, _, hrest⟩ := Outcome.bind_ok hrest
    split at hrest
    · cases hrest
    · split at hrest
      · cases hrest
      · rename_i hsscb
        cases hrest
        exact hsscb
  unfold sharedSegmentFind
  have hmap : (s.setSscb b { sscb with users := sscb.users ++ [⟨h, entry⟩] }).ssegMap =
      s.ssegMap := rfl
  rw [hmap]
  cases s.ssegMap.lookup name with
  | none => rfl
  | some b' =>
      by_cases hb' : b' = b
      · subst b'
        simp [setSscb, hb]
      · simp [setSscb, update_of_ne hb']

end Find

/-- A page of a mapping names a page of a shared segment. -/
structure SharedPage (ssegInd i : Nat) (accType : AccessType) (e : PageTableL2Entry) : Prop where
  inseg : e.getInseg = true
  valid : e.getValid = true
  tbc : e.getTbc = false
  shared : e.getShared = true
  access : e.getAccess = accType.code
  ssegInd : e.ssegInd = BitVec.ofNat 8 ssegInd
  block : e.block = i % 65536

/-- The descriptor that `create_shared_segment` writes. -/
def sharedEntry (ssegInd i : Nat) (accType : AccessType) (e : PageTableL2Entry) :
    PageTableL2Entry :=
  { e.setFlags (packFlags accType true false true false true) with
    ssegInd := BitVec.ofNat 8 ssegInd }.setBlockDisk i

theorem sharedPage_sharedEntry (ssegInd i : Nat) (accType : AccessType) (e : PageTableL2Entry) :
    SharedPage ssegInd i accType (sharedEntry ssegInd i accType e) :=
  ⟨get_setFlags_pack e .., get_setFlags_pack e .., get_setFlags_pack e .., get_setFlags_pack e ..,
    getAccess_pack e .., rfl, block_setBlockDisk ..⟩

theorem SharedPage.not_resident {ssegInd i : Nat} {accType : AccessType} {e : PageTableL2Entry}
    (hpage : SharedPage ssegInd i accType e) : ¬ e.Resident := Copied.not_resident hpage.shared

theorem SharedPage.not_pagedOut {ssegInd i : Nat} {accType : AccessType} {e : PageTableL2Entry}
    (hpage : SharedPage ssegInd i accType e) : ¬ e.PagedOut := fun hp => by
  have hshared := hpage.shared
  simp [hp.1] at hshared

/-- A mapping is not paged. -/
theorem SharedPage.stable {ssegInd i : Nat} {accType : AccessType} {us us' : UserSpace KAddr}
    {e e' : PageTableL2Entry} (hkept : Kept us e us' e') (hpage : SharedPage ssegInd i accType e) :
    SharedPage ssegInd i accType e' := by
  rwa [hkept.desc_eq hpage.not_resident]

namespace Working

variable {g : Layout} {s s' : KernelSystem} {h m startAddr size ssegInd : Nat}
  {accType : AccessType}

/-- The pages of a new mapping. -/
theorem mapShared_inv (hwork : Working g h m s) (hsize : size ≤ 16384)
    (hclear : ∀ v, InRange h startAddr size v → (g.desc v).getInseg = false)
    (hfill : s.fillSegment h startAddr size (mapShared ssegInd accType) = .ok s') :
    ∃ g', Working g' h m s' ∧
      Carried KTable.IsTable (fun _ => False) (InRange h startAddr size) g s g' s' ∧
      SameObjects s s' ∧
      ∀ i, i < size → SharedPage ssegInd i accType (g'.desc (pageOf h (pageAddr startAddr i))) := by
  obtain ⟨g', hwork', hcarried, hobjects, hpages⟩ := hwork.fillSegment_ok
    (J := fun _ => SameObjects s) (R := fun i _ => SharedPage ssegInd i accType) hsize (.refl s)
    (fun _ _ _ h₁ h₂ => h₂.trans h₁) (fun i _ _ _ _ hkept => SharedPage.stable hkept)
    (fun i hi _ g₁ s₁ f s₂ _ hwork₁ hJ hcarried₁ hin hmap => by
      have hinseg := (hcarried₁.pages _ (fun hv => hv.2 rfl)).sameRights.inseg
      rw [hclear _ ⟨i, hi, rfl⟩] at hinseg
      have hread : s₁.mem ⟨f, cellOf (pageAddr startAddr i)⟩ =
          g₁.desc (pageOf h (pageAddr startAddr i)) := hwork₁.inv.mem_eq hin.table _
      have hpage := sharedPage_sharedEntry ssegInd i accType
        (g₁.desc (pageOf h (pageAddr startAddr i)))
      obtain ⟨g₂, hinv₂, hplace, hcarried₂, hobjects, hdesc⟩ := hwork₁.inv.copyEntry
        hin.table hinseg hpage.not_resident hpage.not_pagedOut
      have hs₂ : s₂ = s₁.withUser (s₁.setPte ⟨f, cellOf (pageAddr startAddr i)⟩ (sharedEntry
          ssegInd i accType (g₁.desc (pageOf h (pageAddr startAddr i))))) := by
        rw [← hread]
        exact (Except.ok.inj hmap).symm
      subst hs₂
      refine ⟨g₂, hinv₂, hcarried₂.mono nofun nofun (fun _ => id), by rw [hplace, hin.table],
        hJ.trans hobjects, ?_⟩
      rw [hdesc]
      exact hpage) hfill
  exact ⟨g', hwork', hcarried, hobjects, hpages⟩

end Working

namespace KernelInv

variable {g : Layout} {s s' : KernelSystem} {h m startAddr size : Nat} {name : String}
  {accType : AccessType} {status : Status}

theorem not_madeSince (hinv : KernelInv g noHand noHand s)
    (hm : g.place (.master h) = .frame m) : ¬ MadeSince s h := by
  intro hmade
  rw [(hinv.fresh h hmade).1] at hm
  cases hm

theorem Beside.mono_to {g' : Layout} {loose : KTable → Prop} {mine : Nat → Prop}
    {but : LPage → Prop} (hbeside : Beside g s g' s')
    (hloose : ∀ t, t.IsTable ∨ (∃ x, MadeSince s x ∧ t = .master x) → loose t)
    (hmine : ∀ x, MadeSince s x → mine x) (hbut : ∀ v : LPage, MadeSince s v.proc → but v) :
    Carried loose mine but g s g' s' := hbeside.mono hloose hmine hbut

/-- `create_shared_segment` on a resident process: it refuses, though it may have made the
shared segment, or records the mapping and writes its descriptors. -/
theorem createSharedSegment_inv (hinv : KernelInv g noHand noHand s) (hsound : g.Sound)
    (hm : g.place (.master h) = .frame m)
    (hclear : status = .ok → ∀ v, InRange h startAddr size v → (g.desc v).getInseg = false)
    (hcreate : s.createSharedSegment h startAddr size name accType = .ok (status, s')) :
    ∃ g', KernelInv g' noHand noHand s' ∧ g'.place (.master h) = .frame m ∧
      Unused s g' s' ∧
      ((status = .trap ∧
          Carried (fun t => Released h t ∨ ∃ x, MadeSince s x ∧ t = .master x) (MadeSince s)
            (fun v => MadeSince s v.proc) g s g' s') ∨
        (status = .ok ∧ NewSegment g h (startAddr / 2 ^ 10 % 2 ^ 14) startAddr size .occShared g' ∧
          Carried (fun t => Released h t ∨ ∃ x, MadeSince s x ∧ t = .master x)
            (fun x => x = h ∨ MadeSince s x)
            (fun v => InRange h startAddr size v ∨ MadeSince s v.proc) g s g' s' ∧
          (∃ ssegInd, s'.sharedSegmentFind name = .ok (some ssegInd) ∧ ∀ i, i < size →
            SharedPage ssegInd i accType (g'.desc (pageOf h (pageAddr startAddr i)))) ∧
          (s.ssegMap.lookup name = none → ∀ i, i < size →
            NewPage accType (g'.desc (pageOf s.nextPcb (pageAddr 0 i)))))) := by
  obtain ⟨p, hp, _, hat⟩ := hinv.pcb_ok hm
  obtain ⟨hwork, hlock, hobjects⟩ := hinv.working hsound hm
  have hold : ¬ MadeSince s h := hinv.not_madeSince hm
  unfold createSharedSegment at hcreate
  simp only [hp, Outcome.ok_bind] at hcreate
  split at hcreate
  · cases hcreate
    exact ⟨g, hinv, hm, hinv.unused_start, .inl ⟨rfl, .refl g s⟩⟩
  · rename_i hargs
    obtain ⟨p', hp', _, hat'⟩ := hwork.inv.pcb_ok hm
    simp only [hinv.masterTableLock_ok hm, Outcome.ok_bind, hp'] at hcreate
    split at hcreate
    · cases hcreate
      obtain ⟨hinv', hunlock, _⟩ := hwork.unlocked
      exact ⟨g, hinv', hm, hinv.unused_start.keep fun v _ =>
        (hlock.pages v id).trans (hunlock.pages v id), .inl ⟨rfl, hlock.carried.trans
        (hunlock.mono (fun _ => .inl) (fun _ => False.elim) (fun _ => False.elim))⟩⟩
    · rename_i hover
      obtain ⟨⟨found, s₁⟩, hfind, hrest⟩ := Outcome.bind_ok hcreate
      obtain ⟨g₁, hinv₁, hbeside, hnew, hunused⟩ := hwork.inv.findOrCreate_inv hsound hfind
      have hunused : Unused s g₁ s₁ := ⟨hunused.unshared, hunused.empty⟩
      have hloose : ¬ ((KTable.master h).IsTable ∨
          ∃ x, MadeSince (s.ksLockPage m) x ∧ KTable.master h = .master x) := by
        rintro (ht | ⟨x, hx, heq⟩)
        · exact KTable.master_not_table h ht
        · cases heq
          exact hold hx
      have hwork₁ := hwork.carry hinv₁ hbeside hloose
      have hto : Carried (fun t => Released h t ∨ ∃ x, MadeSince s x ∧ t = .master x)
          (MadeSince s) (fun v => MadeSince s v.proc) g s g₁ s₁ := by
        refine hlock.carried.trans (hbeside.mono_to ?_ (fun _ => id) (fun _ => id))
        rintro t (ht | ht)
        · exact .inl (.inr ht)
        · exact .inr ht
      simp only at hrest
      split at hrest
      · cases hrest
        obtain ⟨hinv', hunlock, _⟩ := hwork₁.unlocked
        exact ⟨g₁, hinv', hwork₁.master.1, hunused.keep fun v _ => hunlock.pages v id,
          .inl ⟨rfl, hto.trans
          (hunlock.mono (fun _ => .inl) (fun _ => False.elim) (fun _ => False.elim))⟩⟩
      · rename_i ssegInd
        obtain ⟨⟨entry, s₂⟩, hrecord, hrest⟩ := Outcome.bind_ok hrest
        obtain ⟨s₃, hconnect, hrest⟩ := Outcome.bind_ok hrest
        obtain ⟨s₄, hfill, hret⟩ := Outcome.bind_ok hrest
        cases hret
        have hsize : size ≤ 16384 := by
          simp only [segmentArgs, Bool.not_eq_true, Bool.not_eq_false', Bool.and_eq_true,
            decide_eq_true_eq] at hargs
          omega
        have hsegment : ∀ n, g₁.segment h n = g.segment h n := fun n =>
          congrArg PageTableL2Entry.toSeg (hto.segs h n hold)
        obtain ⟨n, rfl, hfree, hwork₂, hcarried₂, hobjects₂⟩ := hwork₁.recordSegment_ok hrecord
        have hfound₃ := (sharedSegmentFind_connect name hconnect).trans
          ((hobjects₂.sharedSegmentFind name).trans (findOrCreate_found hfind))
        obtain ⟨b, sscb, _, rfl⟩ := connectSharedSegment_ok hconnect
        have hwork₃ := hwork₂.carry (hwork₂.inv.setSscb b _)
          (carried_setSscb _ s₂ b { sscb with users := sscb.users ++ [⟨h, n⟩] }) id
        obtain ⟨g', hwork₄, hcarried₄, hobjects₄, hpages⟩ := hwork₃.mapShared_inv hsize
          (fun v hv => by
            rw [Layout.setSegment_desc]
            refine (hto.pages v fun hmade => hold ?_).sameRights.inseg.trans (hclear rfl v hv)
            obtain ⟨i, _, rfl⟩ := hv
            exact hmade) hfill
        obtain ⟨hinv', hunlock, hobjects₅⟩ := hwork₄.unlocked
        -- the pages of the dummy are not those of the mapping
        have hkept : ∀ v : LPage, MadeSince s v.proc →
            Kept s₁.toUserSpace (g₁.desc v) (s₄.pageUnlock m).toUserSpace (g'.desc v) := by
          intro v hv
          have hkept₂ := hcarried₂.pages v id
          have hkept₄ := hcarried₄.pages v fun hrange => hold (by
            obtain ⟨j, _, rfl⟩ := hrange
            exact hv)
          exact hkept₂.trans (((carried_setSscb _ s₂ b _).pages v id).trans
            (hkept₄.trans (hunlock.pages v id)))
        refine ⟨g', hinv', hwork₄.master.1,
          hunused.keep hkept, .inr ⟨rfl, ⟨hsize, fun n' => ?_,
          n, hsegment n ▸ hfree, fun n' => ?_⟩, ?_, ⟨ssegInd,
          ((hobjects₄.trans hobjects₅).sharedSegmentFind name).trans hfound₃, hpages⟩,
          fun hnone i hi => ?_⟩⟩
        · by_contra hn'
          exact hover ((hwork.inv.anyOverlap_eq hm hat').mpr ⟨n', by simpa using hn'⟩)
        · rw [← hsegment, ← hsegment, ← Layout.segment_setSegment]
          exact congrArg PageTableL2Entry.toSeg (hcarried₄.segs h n' id)
        · refine (hto.mono (fun _ => id) (fun _ => .inr) (fun _ => .inr)).trans
            ((hcarried₂.mono (fun _ => False.elim) (fun _ => .inl) (fun _ => False.elim)).trans
              ((carried_setSscb _ s₂ b _).carried.trans
                ((hcarried₄.mono (fun _ ht => .inl (.inr ht)) (fun _ => False.elim)
                  (fun _ => .inl)).trans
                  (hunlock.mono (fun _ => .inl) (fun _ => False.elim) (fun _ => False.elim)))))
        · exact (hnew (fun heq => by cases heq) hnone i hi).keep
            (hkept _ (Nat.le_refl _)).sameRights

end KernelInv

end VirtualMemory
