import VirtualMemory.UserPaging

/-!
# One page at a time

What the kernel does to a single private page keeps the invariant: a page is put into
a frame in hand, its dirty bits are set, it gives back what it holds, or its entry is
rewritten while it holds nothing. Each lemma describes the state after the change by
`PageView.put`; the operations of `UserSpace` on one page are then compositions.
-/

namespace VirtualMemory

open Function UserSpace PageTableL2Entry

variable {V D E : Type}
variable {w : PageView V D} {hand : Nat → Prop} {ext : E → Nat → Prop} {s s' : UserSpace D}
variable {v : V} {a : D} {e : PageTableL2Entry} {f : Nat}

theorem ClusterInv.block_lt (hinv : ClusterInv w ext s) (hv : (w.desc v).PagedOut) :
    (w.desc v).block < s.diskSize :=
  hinv.ledger.holds_dom (r := .page v) (.inr ⟨hv, rfl⟩)

theorem ClusterInv.block_ne_null (hinv : ClusterInv w ext s) (hv : (w.desc v).PagedOut) :
    (w.desc v).block ≠ nullCluster := by
  have hlt := hinv.block_lt hv
  have hsmall := hinv.small
  unfold maxClusters at hsmall
  unfold nullCluster
  omega

theorem FrameInv.block_ne_hand (hinv : FrameInv w hand s) (hf : hand f)
    (hv : (w.desc v).Resident) : (w.desc v).block ≠ f := by
  intro heq
  have hsame : FrameHolder.page v = FrameHolder.hand f :=
    hinv.ledger.inj (c := f) ⟨hv, heq⟩ ⟨hf, rfl⟩
  cases hsame

/-- The table entry of a frame in hand is nobody else's business. -/
theorem frameInv_usFt (hinv : FrameInv w hand s) (hf : hand f) (entry : FrameTableEntry D) :
    FrameInv w hand { s with usFt := update s.usFt f entry } := by
  refine { hinv with typed := fun g hg => ?_, owner := fun v hr => ?_ }
  · by_cases hgf : g = f
    · subst g
      exact hinv.ledger.holds_dom (r := .hand f) ⟨hf, rfl⟩
    · simp only [update_of_ne hgf] at hg
      exact hinv.typed g hg
  · simp only [update_of_ne (hinv.block_ne_hand hf hr)]
    exact hinv.owner v hr

theorem addr_ne_of_addr (hinv : FrameInv w hand s) (ha : w.addr v = some a) (v' : V)
    (hvv : v' ≠ v) : w.addr v' ≠ some a :=
  fun h => hvv (hinv.addr_inj v' v a h ha)

/-- The content of an entry is read off the frames and the disk only. -/
theorem content_of_eq {t : UserSpace D} (hu : e.Resident → t.userspc e.block = s.userspc e.block)
    (hd : e.PagedOut → t.disk e.block = s.disk e.block) : t.content e = s.content e := by
  by_cases hr : e.Resident
  · rw [content_resident hr, content_resident hr, hu hr]
  · by_cases hp : e.PagedOut
    · rw [content_pagedOut hp, content_pagedOut hp, hd hp]
    · rw [content_none hr hp, content_none hr hp]

variable [DecidableEq V]

theorem addr_inj_put (hinv : FrameInv w hand s) (hother : ∀ v', v' ≠ v → w.addr v' ≠ some a)
    (v₁ v₂ : V) (b : D) (h₁ : (w.put v a e).addr v₁ = some b)
    (h₂ : (w.put v a e).addr v₂ = some b) : v₁ = v₂ := by
  by_cases hv₁ : v₁ = v <;> by_cases hv₂ : v₂ = v
  · rw [hv₁, hv₂]
  · subst v₁
    rw [PageView.put_addr_self] at h₁
    rw [PageView.put_addr_of_ne _ hv₂, ← h₁] at h₂
    exact absurd h₂ (hother v₂ hv₂)
  · subst v₂
    rw [PageView.put_addr_self] at h₂
    rw [PageView.put_addr_of_ne _ hv₁, ← h₂] at h₁
    exact absurd h₁ (hother v₁ hv₁)
  · rw [PageView.put_addr_of_ne _ hv₁] at h₁
    rw [PageView.put_addr_of_ne _ hv₂] at h₂
    exact hinv.addr_inj v₁ v₂ b h₁ h₂

variable [DecidableEq D]

/-- A descriptor rewritten in place does not move the others. -/
theorem link_put (hinv : FrameInv w hand s) (hother : ∀ v', v' ≠ v → w.addr v' ≠ some a)
    (v' : V) (b : D) (hb : (w.put v a e).addr v' = some b) :
    update s.mem a e b = (w.put v a e).desc v' := by
  by_cases hvv : v' = v
  · subst v'
    rw [PageView.put_addr_self] at hb
    cases hb
    simp
  · rw [PageView.put_addr_of_ne _ hvv] at hb
    have hba : b ≠ a := fun heq => hother v' hvv (heq ▸ hb)
    rw [PageView.put_desc_of_ne _ hvv, update_of_ne hba, hinv.link v' b hb]

/-- A descriptor is rewritten without entering or leaving a frame. -/
theorem frameInv_setPte (hinv : FrameInv w hand s) (ha : w.addr v = some a)
    (hres : e.Resident ↔ (w.desc v).Resident)
    (hblock : e.Resident → e.block = (w.desc v).block) :
    FrameInv (w.put v a e) hand (s.setPte a e) := by
  have hother := addr_ne_of_addr hinv ha
  refine ⟨hinv.typed, hinv.size_le, hinv.nodup, ?_, ?_, link_put hinv hother,
    addr_inj_put hinv hother⟩
  · refine hinv.ledger.congr (fun c => Iff.rfl) ?_
    rintro (v' | g) c
    · by_cases hvv : v' = v
      · subst v'
        simp only [frameHolds, PageView.put_desc_self]
        exact ⟨fun h => ⟨hres.mp h.1, (hblock h.1).symm.trans h.2⟩,
          fun h => ⟨hres.mpr h.1, (hblock (hres.mpr h.1)).trans h.2⟩⟩
      · simp only [frameHolds, PageView.put_desc_of_ne _ hvv]
    · rfl
  · intro v' hr
    by_cases hvv : v' = v
    · subst v'
      rw [PageView.put_desc_self] at hr ⊢
      rw [PageView.put_addr_self, hblock hr, ← ha]
      exact hinv.owner v (hres.mp hr)
    · rw [PageView.put_desc_of_ne _ hvv] at hr ⊢
      rw [PageView.put_addr_of_ne _ hvv]
      exact hinv.owner v' hr

/-- A descriptor becomes valid and names a frame in hand, which the frame table already
sends to it. -/
theorem frameInv_map {hand' : Nat → Prop} (hinv : FrameInv w hand s) (hf : hand f)
    (hhand : ∀ x, hand' x ↔ hand x ∧ x ≠ f) (hother : ∀ v', v' ≠ v → w.addr v' ≠ some a)
    (hnot : ¬ (w.desc v).Resident) (he : e.Resident) (hblock : e.block = f)
    (hft : (s.usFt f).type = .usUserPage ∧ (s.usFt f).owner = some a) :
    FrameInv (w.put v a e) hand' (s.setPte a e) := by
  refine ⟨hinv.typed, hinv.size_le, hinv.nodup, ?_, ?_, link_put hinv hother,
    addr_inj_put hinv hother⟩
  · refine hinv.ledger.move (r := .hand f) (q := .page v) (c := f) ⟨hf, rfl⟩
      (fun x hx => hx.2.symm) (fun x hx => hnot hx.1) (by simp) (fun x => Iff.rfl)
      (fun x hx => ((hhand f).mp hx.1).2 rfl) ?_ ?_
    · intro x
      simp only [frameHolds, PageView.put_desc_self, hblock]
      exact ⟨fun hx => hx.2.symm, fun hx => ⟨he, hx.symm⟩⟩
    · rintro (v' | g) x hne hne'
      · have hvv : v' ≠ v := fun heq => hne' (by rw [heq])
        simp only [frameHolds, PageView.put_desc_of_ne _ hvv]
      · have hgf : g ≠ f := fun heq => hne (by rw [heq])
        simp [frameHolds, hhand, hgf]
  · intro v' hr
    by_cases hvv : v' = v
    · subst v'
      rw [PageView.put_desc_self, PageView.put_addr_self, hblock]
      exact ⟨hft.1, a, rfl, hft.2⟩
    · rw [PageView.put_desc_of_ne _ hvv] at hr ⊢
      rw [PageView.put_addr_of_ne _ hvv]
      exact hinv.owner v' hr

/-- The state once frame `f`, with contents `p` and origin `o`, is mapped by the entry `e`
at `a`. -/
def settled (s : UserSpace D) (f : Nat) (a : D) (o : Nat) (p : Page) (e : PageTableL2Entry) :
    UserSpace D :=
  { s with
    usFt := update s.usFt f ⟨FrameTableEntry.ftNone, .usUserPage, some a⟩
    ot := update s.ot f o
    userspc := update s.userspc f p
    mem := update s.mem a e }

/-- The origin of a frame that is being settled: none for a page that held no cluster,
and the page's own cluster, with its contents, for a paged out page. -/
def OriginOf (s : UserSpace D) (old : PageTableL2Entry) (o : Nat) (p : Page)
    (e : PageTableL2Entry) : Prop :=
  (o = nullCluster ∧ ¬ old.PagedOut) ∨
    (old.PagedOut ∧ old.block = o ∧ e.getDirty = false ∧ p = s.disk o)

section Settle

variable {o : Nat} {p : Page}

theorem frameInv_settled (hinv : FrameInv w (· = f) s)
    (hother : ∀ v', v' ≠ v → w.addr v' ≠ some a) (hnot : ¬ (w.desc v).Resident)
    (he : e.Resident) (hblock : e.block = f) :
    FrameInv (w.put v a e) noHand (settled s f a o p e) := by
  have hentry := frameInv_usFt hinv rfl ⟨FrameTableEntry.ftNone, .usUserPage, some a⟩
  exact (frameInv_map hentry rfl (by simp [noHand]) hother hnot he hblock (by simp)).of_eq
    rfl rfl rfl rfl

theorem clusterInv_settled (hinv : UserInv w (· = f) ext s) (hnot : ¬ (w.desc v).Resident)
    (he : e.Resident) (hblock : e.block = f) (hshape : e.Shape)
    (horigin : OriginOf s (w.desc v) o p e) :
    ClusterInv (w.put v a e) ext (settled s f a o p e) := by
  have hne : ∀ v', (w.desc v').Resident → (w.desc v').block ≠ f :=
    fun v' hr => hinv.frames.block_ne_hand rfl hr
  refine ⟨?_, hinv.clusters.small, ?_, ?_, ?_⟩
  · refine hinv.clusters.ledger.congr (fun c => Iff.rfl) ?_
    rintro (v' | x) c
    · by_cases hvv : v' = v
      · subst v'
        simp only [clusterHolds, PageView.put_desc_self, hblock, settled, update_self]
        constructor
        · rintro (⟨_, rfl, hnull⟩ | ⟨hp, _⟩)
          · obtain ⟨rfl, _⟩ | ⟨hold, hob, _⟩ := horigin
            · exact absurd rfl hnull
            · exact .inr ⟨hold, hob⟩
          · exact absurd he hp.not_resident
        · rintro (⟨hr, _⟩ | ⟨hp, rfl⟩)
          · exact absurd hr hnot
          · obtain ⟨_, hnp⟩ | ⟨_, rfl, _⟩ := horigin
            · exact absurd hp hnp
            · exact .inl ⟨he, rfl, hinv.clusters.block_ne_null hp⟩
      · simp only [clusterHolds, PageView.put_desc_of_ne _ hvv, settled]
        by_cases hr : (w.desc v').Resident
        · rw [update_of_ne (hne v' hr)]
        · simp [hr]
    · rfl
  · intro v'
    by_cases hvv : v' = v
    · subst v'
      rwa [PageView.put_desc_self]
    · rw [PageView.put_desc_of_ne _ hvv]
      exact hinv.clusters.shape v'
  · intro v' hr
    by_cases hvv : v' = v
    · subst v'
      simp only [PageView.put_desc_self, hblock, settled, update_self]
      obtain ⟨rfl, _⟩ | ⟨_, _, hclean, _⟩ := horigin
      · exact fun hnull => absurd rfl hnull
      · simp [hclean]
    · rw [PageView.put_desc_of_ne _ hvv] at hr ⊢
      simp only [settled, update_of_ne (hne v' hr)]
      exact hinv.clusters.agree v' hr
  · intro v' hr
    by_cases hvv : v' = v
    · subst v'
      simp only [PageView.put_desc_self, hblock, settled, update_self]
      obtain ⟨rfl, _⟩ | ⟨_, _, _, rfl⟩ := horigin
      · exact fun hnull => absurd rfl hnull
      · exact fun _ _ => rfl
    · rw [PageView.put_desc_of_ne _ hvv] at hr ⊢
      simp only [settled, update_of_ne (hne v' hr)]
      exact hinv.clusters.clean v' hr

/-- A change of one page's entry in place, with the other pages' contents untouched. -/
theorem pagedBut_put {t : UserSpace D} (ha : w.addr v = some a)
    (hmem : t.mem = update s.mem a e)
    (hothers : ∀ v', v' ≠ v → t.content (w.desc v') = s.content (w.desc v'))
    (hdisk : ∀ x c, ext x c → t.disk c = s.disk c) (hsize : t.userspcSize = s.userspcSize)
    (hdiskSize : t.diskSize = s.diskSize) :
    PagedBut ext (· = v) w s (w.put v a e) t := by
  refine ⟨PageView.put_addr_eq ha e, ?_, ?_, hdisk, hsize, hdiskSize⟩
  · intro v' hvv
    rw [PageView.put_desc_of_ne _ hvv]
    exact ⟨.inl rfl, hothers v' hvv⟩
  · intro b hb
    have hba : b ≠ a := fun heq => hb v (heq ▸ ha)
    rw [hmem, update_of_ne hba]

/-- A frame in hand becomes a resident page. The page's descriptor may be out of reach
of the view until then, as that of a copy is. -/
theorem settle_inv (hinv : UserInv w (· = f) ext s)
    (hother : ∀ v', v' ≠ v → w.addr v' ≠ some a) (hnot : ¬ (w.desc v).Resident)
    (he : e.Resident) (hblock : e.block = f) (hshape : e.Shape)
    (horigin : OriginOf s (w.desc v) o p e) :
    UserInv (w.put v a e) noHand ext (settled s f a o p e) ∧
      (settled s f a o p e).content e = some p ∧
      ∀ v', v' ≠ v → (settled s f a o p e).content (w.desc v') = s.content (w.desc v') := by
  refine ⟨⟨frameInv_settled hinv.frames hother hnot he hblock,
    clusterInv_settled hinv hnot he hblock hshape horigin⟩, ?_, ?_⟩
  · rw [content_resident he, hblock]
    simp [settled]
  · intro v' hvv
    refine content_of_eq ?_ fun _ => rfl
    intro hr
    simp only [settled, update_of_ne (hinv.frames.block_ne_hand rfl hr)]

end Settle

/-- The state once the entry at `a` was assigned. -/
theorem rewrite_inv (hinv : UserInv w hand ext s) (ha : w.addr v = some a)
    (hnot : ¬ (w.desc v).Resident) (hnot' : ¬ (w.desc v).PagedOut) (he : ¬ e.Resident)
    (he' : ¬ e.PagedOut) :
    UserInv (w.put v a e) hand ext (s.setPte a e) ∧
      PagedBut ext (· = v) w s (w.put v a e) (s.setPte a e) := by
  have hres : ∀ v', ((w.put v a e).desc v').Resident → v' ≠ v ∧ (w.desc v').Resident := by
    intro v' hr
    have hvv : v' ≠ v := by
      rintro rfl
      rw [PageView.put_desc_self] at hr
      exact he hr
    rw [PageView.put_desc_of_ne _ hvv] at hr
    exact ⟨hvv, hr⟩
  refine ⟨⟨frameInv_setPte hinv.frames ha (iff_of_false he hnot) fun hr => absurd hr he,
    ?_, hinv.clusters.small, ?_, ?_, ?_⟩, ?_⟩
  · refine hinv.clusters.ledger.congr (fun c => Iff.rfl) ?_
    rintro (v' | x) c
    · by_cases hvv : v' = v
      · subst v'
        simp [clusterHolds, he, hnot, he', hnot']
      · simp only [clusterHolds, PageView.put_desc_of_ne _ hvv, setPte]
    · rfl
  · intro v'
    by_cases hvv : v' = v
    · subst v'
      rw [PageView.put_desc_self]
      exact fun hr => absurd hr he
    · rw [PageView.put_desc_of_ne _ hvv]
      exact hinv.clusters.shape v'
  · intro v' hr
    obtain ⟨hvv, hr⟩ := hres v' hr
    rw [PageView.put_desc_of_ne _ hvv]
    exact hinv.clusters.agree v' hr
  · intro v' hr
    obtain ⟨hvv, hr⟩ := hres v' hr
    rw [PageView.put_desc_of_ne _ hvv]
    exact hinv.clusters.clean v' hr
  · exact pagedBut_put ha rfl (fun _ _ => rfl) (fun _ _ _ => rfl) rfl rfl

section Release

variable {t : UserSpace D}

omit [DecidableEq V] [DecidableEq D] in
theorem usRelinquishPage_eq (s : UserSpace D) (ordinal : Nat) :
    s.usRelinquishPage ordinal = { s with
      dvt := if s.ot ordinal = nullCluster then s.dvt else update s.dvt (s.ot ordinal) true
      usEmpty := s.usEmpty ++ [ordinal] } := by
  unfold usRelinquishPage
  by_cases hnull : s.ot ordinal = nullCluster <;> simp [hnull, usFreePage, dvtMark]

omit [DecidableEq D] in
/-- The clusters after a page gave up whatever cluster it held. -/
theorem clusterInv_release (hinv : ClusterInv w ext s)
    (he : ¬ e.Resident) (he' : ¬ e.PagedOut)
    (hdvt : ∀ c, t.dvt c = true ↔
      s.dvt c = true ∨ clusterHolds w.desc s.ot ext (.page v) c)
    (hft : t.usFt = s.usFt) (hot : t.ot = s.ot) (husr : t.userspc = s.userspc)
    (hdisk : t.disk = s.disk) (hsize : t.diskSize = s.diskSize) :
    ClusterInv (w.put v a e) ext t := by
  have hnone : ∀ c, ¬ clusterHolds (w.put v a e).desc s.ot ext (.page v) c := by
    intro c
    simp [clusterHolds, he, he']
  have hothers : Ledger.Others (.page v) (clusterHolds w.desc s.ot ext)
      (clusterHolds (w.put v a e).desc s.ot ext) := by
    rintro (v' | x) c hne
    · have hvv : v' ≠ v := fun heq => hne (by rw [heq])
      simp only [clusterHolds, PageView.put_desc_of_ne _ hvv]
    · rfl
  have hold : ∀ v', ((w.put v a e).desc v').Resident → v' ≠ v ∧ (w.desc v').Resident := by
    intro v' hr
    have hvv : v' ≠ v := by
      rintro rfl
      rw [PageView.put_desc_self] at hr
      exact he hr
    rw [PageView.put_desc_of_ne _ hvv] at hr
    exact ⟨hvv, hr⟩
  refine ⟨?_, by rw [hsize]; exact hinv.small, ?_, ?_, ?_⟩
  · rw [hot, hsize]
    by_cases hc : ∃ c, clusterHolds w.desc s.ot ext (.page v) c
    · obtain ⟨c, hc⟩ := hc
      refine hinv.ledger.give hc (fun x hx => clusterHolds_page_unique hx hc) ?_ hnone hothers
      intro x
      rw [hdvt]
      exact or_congr_right ⟨fun hx => clusterHolds_page_unique hx hc, fun hx => hx ▸ hc⟩
    · refine hinv.ledger.congr ?_ ?_
      · intro x
        rw [hdvt]
        exact or_iff_left (fun hx => hc ⟨x, hx⟩)
      · intro r x
        by_cases hr : r = .page v
        · subst r
          exact iff_of_false (hnone x) (fun hx => hc ⟨x, hx⟩)
        · exact hothers r x hr
  · intro v'
    by_cases hvv : v' = v
    · subst v'
      rw [PageView.put_desc_self]
      exact fun hr => absurd hr he
    · rw [PageView.put_desc_of_ne _ hvv]
      exact hinv.shape v'
  · intro v' hr
    obtain ⟨hvv, hr⟩ := hold v' hr
    rw [PageView.put_desc_of_ne _ hvv, hft, hot]
    exact hinv.agree v' hr
  · intro v' hr
    obtain ⟨hvv, hr⟩ := hold v' hr
    rw [PageView.put_desc_of_ne _ hvv, hot, husr, hdisk]
    exact hinv.clean v' hr

/-- The frames after a page gave up whatever frame it was in. -/
theorem frameInv_release (hinv : FrameInv w hand s) (ha : w.addr v = some a)
    (he : ¬ e.Resident)
    (hempty : t.usEmpty = if (w.desc v).Resident then s.usEmpty ++ [(w.desc v).block]
      else s.usEmpty)
    (hft : t.usFt = s.usFt) (hmem : t.mem = update s.mem a e)
    (hsize : t.userspcSize = s.userspcSize) :
    FrameInv (w.put v a e) hand t := by
  have hother := addr_ne_of_addr hinv ha
  have hothers : Ledger.Others (.page v) (frameHolds w.desc hand)
      (frameHolds (w.put v a e).desc hand) := by
    rintro (v' | g) x hne
    · have hvv : v' ≠ v := fun heq => hne (by rw [heq])
      simp only [frameHolds, PageView.put_desc_of_ne _ hvv]
    · rfl
  have hnone : ∀ x, ¬ frameHolds (w.put v a e).desc hand (.page v) x := by
    intro x
    simp [frameHolds, he]
  refine ⟨by rw [hsize, hft]; exact hinv.typed, by rw [hsize]; exact hinv.size_le, ?_, ?_, ?_, ?_,
    addr_inj_put hinv hother⟩
  · rw [hempty]
    split
    · rename_i hr
      have hnot : (w.desc v).block ∉ s.usEmpty := hinv.ledger.not_free (r := .page v) ⟨hr, rfl⟩
      rw [List.nodup_append]
      refine ⟨hinv.nodup, by simp, ?_⟩
      intro x hx y hy heq
      rw [List.mem_singleton] at hy
      exact hnot (hy ▸ heq ▸ hx)
    · exact hinv.nodup
  · rw [hsize, hempty]
    by_cases hr : (w.desc v).Resident
    · rw [if_pos hr]
      exact hinv.ledger.give (r := .page v) (c := (w.desc v).block) ⟨hr, rfl⟩
        (fun x hx => hx.2.symm) (fun x => by simp) hnone hothers
    · rw [if_neg hr]
      refine hinv.ledger.congr (fun c => Iff.rfl) ?_
      intro r x
      by_cases hrv : r = .page v
      · subst r
        exact iff_of_false (hnone x) (fun hx => hr hx.1)
      · exact hothers r x hrv
  · intro v' hr
    have hvv : v' ≠ v := by
      rintro rfl
      rw [PageView.put_desc_self] at hr
      exact he hr
    rw [PageView.put_desc_of_ne _ hvv] at hr ⊢
    rw [PageView.put_addr_of_ne _ hvv, hft]
    exact hinv.owner v' hr
  · intro v' b hb
    rw [hmem]
    exact link_put hinv hother v' b hb

theorem not_resident_cleared (e : PageTableL2Entry) : ¬ (e.setFlags 0#8).Resident := by
  simp [Resident]

theorem not_pagedOut_cleared (e : PageTableL2Entry) : ¬ (e.setFlags 0#8).PagedOut := by
  simp [PagedOut]

/-- A resident page gives back its frame, and its cluster if the frame has an origin. -/
theorem relinquish_resident_inv (hinv : UserInv w hand ext s) (ha : w.addr v = some a)
    (hr : (w.desc v).Resident) :
    UserInv (w.put v a ((w.desc v).setFlags 0#8)) hand ext
        ((s.usRelinquishPage (w.desc v).block).setPte a ((w.desc v).setFlags 0#8)) ∧
      PagedBut ext (· = v) w s (w.put v a ((w.desc v).setFlags 0#8))
        ((s.usRelinquishPage (w.desc v).block).setPte a ((w.desc v).setFlags 0#8)) := by
  have hnp : ¬ (w.desc v).PagedOut := fun hp => hp.not_resident hr
  rw [usRelinquishPage_eq]
  refine ⟨⟨frameInv_release hinv.frames ha (not_resident_cleared _) (by rw [if_pos hr]; rfl)
      rfl rfl rfl,
    clusterInv_release hinv.clusters (not_resident_cleared _) (not_pagedOut_cleared _) ?_
      rfl rfl rfl rfl rfl⟩,
    pagedBut_put ha rfl (fun _ _ => rfl) (fun _ _ _ => rfl) rfl rfl⟩
  intro c
  simp only [setPte, clusterHolds, hr, hnp, true_and, false_and, or_false]
  by_cases hnull : s.ot (w.desc v).block = nullCluster
  · rw [if_pos hnull]
    exact ⟨.inl, fun hc => hc.elim id (fun hc => absurd (hc.1.symm.trans hnull) hc.2)⟩
  · rw [if_neg hnull]
    by_cases hc : s.ot (w.desc v).block = c
    · subst c
      simp [hnull]
    · simp [update_of_ne (Ne.symm hc), hc]

/-- A paged out page gives back its cluster. -/
theorem relinquish_pagedOut_inv (hinv : UserInv w hand ext s) (ha : w.addr v = some a)
    (hp : (w.desc v).PagedOut) :
    UserInv (w.put v a ((w.desc v).setFlags 0#8)) hand ext
        ((s.dvtMark (w.desc v).block true).setPte a ((w.desc v).setFlags 0#8)) ∧
      PagedBut ext (· = v) w s (w.put v a ((w.desc v).setFlags 0#8))
        ((s.dvtMark (w.desc v).block true).setPte a ((w.desc v).setFlags 0#8)) := by
  have hr := hp.not_resident
  refine ⟨⟨frameInv_release hinv.frames ha (not_resident_cleared _) (by rw [if_neg hr]; rfl)
      rfl rfl rfl,
    clusterInv_release hinv.clusters (not_resident_cleared _) (not_pagedOut_cleared _) ?_
      rfl rfl rfl rfl rfl⟩,
    pagedBut_put ha rfl (fun _ _ => rfl) (fun _ _ _ => rfl) rfl rfl⟩
  intro c
  simp only [setPte, dvtMark, clusterHolds, hr, hp, false_and, false_or, true_and]
  by_cases hc : (w.desc v).block = c
  · simp [hc]
  · simp [update_of_ne (Ne.symm hc), hc]

/-- The release of one private page of a segment gives back what the page holds, and
touches no other page. -/
theorem releasePage_inv (hinv : UserInv w hand ext s) (ha : w.addr v = some a)
    (hshared : (w.desc v).getShared = false) (hinseg : (w.desc v).getInseg = true)
    (h : s.releasePage a = .ok s') :
    UserInv (w.put v a ((w.desc v).setFlags 0#8)) hand ext s' ∧
      PagedBut ext (· = v) w s (w.put v a ((w.desc v).setFlags 0#8)) s' := by
  have hlink := hinv.frames.link v a ha
  unfold releasePage at h
  rw [hlink] at h
  obtain ⟨t, hback, h⟩ := Outcome.bind_ok h
  cases h
  unfold relinquishHeld at hback
  by_cases hvalid : (w.desc v).getValid = true
  · rw [if_pos hvalid] at hback
    cases hback
    have hmem : (s.usRelinquishPage (w.desc v).block).mem a = w.desc v := by
      rw [usRelinquishPage_eq, hlink]
    rw [hmem]
    exact relinquish_resident_inv hinv ha ⟨hshared, hvalid⟩
  · rw [if_neg hvalid] at hback
    by_cases htbc : (w.desc v).getTbc = true
    · rw [if_pos htbc] at hback
      cases hback
      rw [hlink]
      have hnp : ¬ (w.desc v).PagedOut := by
        intro hp
        rw [hp.2.2.2] at htbc
        cases htbc
      exact rewrite_inv hinv ha (fun hr => hvalid hr.2) hnp (not_resident_cleared _)
        (not_pagedOut_cleared _)
    · rw [if_neg htbc] at hback
      unfold relinquishCluster at hback
      split at hback
      · cases hback
      · cases hback
        have hmem : (s.dvtMark (w.desc v).block true).mem a = w.desc v := hlink
        rw [hmem]
        exact relinquish_pagedOut_inv hinv ha
          ⟨hshared, hinseg, by simpa using hvalid, by simpa using htbc⟩

end Release

/-- A page that is about to be written has both dirty bits set. -/
theorem markDirty_inv (hinv : UserInv w hand ext s) (ha : w.addr v = some a)
    (hr : (w.desc v).Resident) :
    UserInv (w.put v a ((w.desc v).setDirty true)) hand ext (s.markDirty a) ∧
      PagedBut ext (· = v) w s (w.put v a ((w.desc v).setDirty true)) (s.markDirty a) ∧
      (s.markDirty a).content ((w.desc v).setDirty true) = s.content (w.desc v) := by
  have hother := addr_ne_of_addr hinv.frames ha
  have he : ((w.desc v).setDirty true).Resident := by simpa [Resident] using hr
  have hstate : s.markDirty a = { s with
      mem := update s.mem a ((w.desc v).setDirty true)
      usFt := update s.usFt (w.desc v).block ((s.usFt (w.desc v).block).setDirty true) } := by
    simp only [markDirty, setPte, hinv.frames.link v a ha]
  have hres : ∀ v', v' ≠ v → ((w.put v a ((w.desc v).setDirty true)).desc v').Resident →
      (w.desc v').Resident ∧ (w.desc v').block ≠ (w.desc v).block := by
    intro v' hvv hr'
    rw [PageView.put_desc_of_ne _ hvv] at hr'
    exact ⟨hr', hinv.frames.ordinal_ne hr hr' hvv⟩
  rw [hstate]
  refine ⟨⟨⟨?_, hinv.frames.size_le, hinv.frames.nodup, ?_, ?_,
      link_put hinv.frames hother, addr_inj_put hinv.frames hother⟩,
    ?_, hinv.clusters.small, ?_, ?_, ?_⟩,
    pagedBut_put ha rfl (fun _ _ => rfl) (fun _ _ _ => rfl) rfl rfl, ?_⟩
  · intro f hf
    by_cases hfd : f = (w.desc v).block
    · subst f
      exact hinv.frames.typed _ (hinv.frames.owner v hr).1
    · simp only [update_of_ne hfd] at hf
      exact hinv.frames.typed f hf
  · refine hinv.frames.ledger.congr (fun c => Iff.rfl) ?_
    rintro (v' | g) c
    · by_cases hvv : v' = v
      · subst v'
        simp [frameHolds, he, hr]
      · simp only [frameHolds, PageView.put_desc_of_ne _ hvv]
    · rfl
  · intro v' hr'
    by_cases hvv : v' = v
    · subst v'
      rw [PageView.put_desc_self, PageView.put_addr_self, ← ha]
      simpa using hinv.frames.owner v hr
    · obtain ⟨hr', hne⟩ := hres v' hvv hr'
      simp only [PageView.put_desc_of_ne _ hvv, PageView.put_addr_of_ne _ hvv, update_of_ne hne]
      exact hinv.frames.owner v' hr'
  · refine hinv.clusters.ledger.congr (fun c => Iff.rfl) ?_
    rintro (v' | x) c
    · by_cases hvv : v' = v
      · subst v'
        have hnp : ¬ (w.desc v).PagedOut := fun hp => hp.not_resident hr
        have hnp' : ¬ ((w.desc v).setDirty true).PagedOut := fun hp => hp.not_resident he
        simp [clusterHolds, he, hr, hnp, hnp']
      · simp only [clusterHolds, PageView.put_desc_of_ne _ hvv]
    · rfl
  · intro v'
    by_cases hvv : v' = v
    · subst v'
      simpa [Shape] using fun _ => hinv.clusters.shape v hr
    · rw [PageView.put_desc_of_ne _ hvv]
      exact hinv.clusters.shape v'
  · intro v' hr'
    by_cases hvv : v' = v
    · subst v'
      rw [PageView.put_desc_self]
      simp
    · obtain ⟨hr', hne⟩ := hres v' hvv hr'
      rw [PageView.put_desc_of_ne _ hvv]
      simp only [update_of_ne hne]
      exact hinv.clusters.agree v' hr'
  · intro v' hr'
    by_cases hvv : v' = v
    · subst v'
      simp
    · obtain ⟨hr', hne⟩ := hres v' hvv hr'
      simp only [PageView.put_desc_of_ne _ hvv]
      exact hinv.clusters.clean v' hr'
  · rw [content_resident he, content_resident hr]
    rfl

omit [DecidableEq V] [DecidableEq D] in
/-- A store into a dirty page changes that page's contents and no other's. -/
theorem storeByte_inv (hinv : UserInv w hand ext s) (hr : (w.desc v).Resident)
    (hdirty : (w.desc v).getDirty = true) (offset : Fin 1024) (value : BitVec 8) :
    UserInv w hand ext (s.storeByte (w.desc v).block offset value) ∧
      PagedBut ext (· = v) w s w (s.storeByte (w.desc v).block offset value) ∧
      (s.storeByte (w.desc v).block offset value).content (w.desc v) =
        some ((s.userspc (w.desc v).block).store offset value) := by
  refine ⟨⟨⟨hinv.frames.typed, hinv.frames.size_le, hinv.frames.nodup, hinv.frames.ledger,
      hinv.frames.owner, hinv.frames.link, hinv.frames.addr_inj⟩,
    hinv.clusters.ledger, hinv.clusters.small, hinv.clusters.shape, hinv.clusters.agree, ?_⟩,
    ⟨rfl, ?_, fun _ _ => rfl, fun _ _ _ => rfl, rfl, rfl⟩, ?_⟩
  · intro v' hr' hnull hclean
    have hvv : v' ≠ v := by
      rintro rfl
      rw [hdirty] at hclean
      cases hclean
    simp only [storeByte, copyPage, update_of_ne (hinv.frames.ordinal_ne hr hr' hvv)]
    exact hinv.clusters.clean v' hr' hnull hclean
  · intro v' hvv
    refine ⟨.inl rfl, content_of_eq (fun hr' => ?_) fun _ => rfl⟩
    simp only [storeByte, copyPage, update_of_ne (hinv.frames.ordinal_ne hr hr' hvv)]
  · rw [content_resident hr]
    simp [storeByte, copyPage]

/-- The frame that a request took, with its table entry, origin and contents, before its
descriptor is written. -/
def prepared (s : UserSpace D) (f : Nat) (a : D) (o : Nat) (p : Page) : UserSpace D :=
  { s with
    usFt := update s.usFt f ⟨FrameTableEntry.ftNone, .usUserPage, some a⟩
    ot := update s.ot f o
    userspc := update s.userspc f p }

theorem setPte_prepared (s : UserSpace D) (f : Nat) (a : D) (o : Nat) (p : Page)
    (e : PageTableL2Entry) : (prepared s f a o p).setPte a e = settled s f a o p e := rfl

@[simp] theorem nullCluster_mod : nullCluster % 65536 = nullCluster := rfl

theorem usRequestPage_ok {cluster f : Nat} {cloneOverride : Bool} (hc : cluster < 65536)
    (h : s.usRequestPage .usUserPage a cluster cloneOverride = .ok (f, s')) :
    ∃ t, s.usTakePage none = .ok (f, t) ∧
      s' = prepared t f a (if cloneOverride then nullCluster else cluster)
        (if cluster = nullCluster then t.userspc f else t.disk cluster) := by
  unfold usRequestPage usAcquirePage at h
  obtain ⟨⟨g, u⟩, hacquire, h⟩ := Outcome.bind_ok h
  obtain ⟨⟨g', t⟩, htake, hacquire⟩ := Outcome.bind_ok hacquire
  cases hacquire
  cases h
  refine ⟨t, htake, ?_⟩
  by_cases hnull : cluster = nullCluster
  · subst cluster
    cases cloneOverride <;>
      simp [prepared, setOrigin, usFtUpdate]
  · cases cloneOverride <;>
      simp [prepared, setOrigin, usFtUpdate, diskGet, hnull, Nat.mod_eq_of_lt hc]

theorem usLoadPage_ok {f : Nat} {content : Page}
    (h : s.usLoadPage .usUserPage a content = .ok (f, s')) :
    ∃ t, s.usTakePage none = .ok (f, t) ∧ s' = prepared t f a nullCluster content := by
  unfold usLoadPage usAcquirePage at h
  obtain ⟨⟨g, u⟩, hacquire, h⟩ := Outcome.bind_ok h
  obtain ⟨⟨g', t⟩, htake, hacquire⟩ := Outcome.bind_ok hacquire
  cases hacquire
  cases h
  exact ⟨t, htake, by simp [prepared, setOrigin, usFtUpdate, copyPage]⟩

theorem usClonePage_ok {f index : Nat} (h : s.usClonePage index a = .ok (f, s')) :
    ∃ t, s.usTakePage (some index) = .ok (f, t) ∧
      s' = prepared t f a nullCluster (t.userspc index) := by
  unfold usClonePage usAcquirePage at h
  obtain ⟨⟨g, u⟩, hacquire, h⟩ := Outcome.bind_ok h
  obtain ⟨⟨g', t⟩, htake, hacquire⟩ := Outcome.bind_ok hacquire
  cases hacquire
  cases h
  exact ⟨t, htake, by simp [prepared, setOrigin, usFtUpdate, copyPage]⟩

theorem usRequestPage_error {cluster : Nat} {cloneOverride : Bool} {halt : Halt}
    (h : s.usRequestPage .usUserPage a cluster cloneOverride = .error halt) :
    s.usTakePage none = .error halt := by
  unfold usRequestPage usAcquirePage at h
  obtain h | ⟨r, _, h⟩ := Outcome.bind_error h
  · obtain h | ⟨r, _, h⟩ := Outcome.bind_error h
    · exact h
    · cases h
  · cases h

theorem usLoadPage_error {content : Page} {halt : Halt}
    (h : s.usLoadPage .usUserPage a content = .error halt) :
    s.usTakePage none = .error halt := by
  unfold usLoadPage usAcquirePage at h
  obtain h | ⟨r, _, h⟩ := Outcome.bind_error h
  · obtain h | ⟨r, _, h⟩ := Outcome.bind_error h
    · exact h
    · cases h
  · cases h

theorem usClonePage_error {index : Nat} {halt : Halt}
    (h : s.usClonePage index a = .error halt) : s.usTakePage (some index) = .error halt := by
  unfold usClonePage usAcquirePage at h
  obtain h | ⟨r, _, h⟩ := Outcome.bind_error h
  · obtain h | ⟨r, _, h⟩ := Outcome.bind_error h
    · exact h
    · cases h
  · cases h

/-- The new page's entry is written: the last step of every request. -/
theorem settle_taken {w₁ : PageView V D} {t : UserSpace D} {o : Nat} {p : Page}
    (hpaged : Paged ext w s w₁ t) (hinv : UserInv w₁ (· = f) ext t) (ha : w.addr v = some a)
    (hnot : ¬ (w₁.desc v).Resident) (he : e.Resident) (hblock : e.block = f)
    (hshape : e.Shape) (horigin : OriginOf t (w₁.desc v) o p e) :
    UserInv (w₁.put v a e) noHand ext (settled t f a o p e) ∧
      PagedBut ext (· = v) w s (w₁.put v a e) (settled t f a o p e) ∧
      (settled t f a o p e).content e = some p := by
  have ha₁ : w₁.addr v = some a := by rw [hpaged.addr, ha]
  obtain ⟨hinv', hcontent, hothers⟩ :=
    settle_inv hinv (addr_ne_of_addr hinv.frames ha₁) hnot he hblock hshape horigin
  exact ⟨hinv', (hpaged.mono fun _ => False.elim).trans
    (pagedBut_put ha₁ rfl hothers (fun _ _ _ => rfl) rfl rfl), hcontent⟩

omit [DecidableEq V] [DecidableEq D] in
/-- A frame in hand is a 16-bit number. -/
theorem hand_lt (hinv : FrameInv w (· = f) s) : f < 65536 :=
  Nat.lt_of_lt_of_le (hinv.ledger.holds_dom (r := .hand f) ⟨rfl, rfl⟩) hinv.size_le

/-- A fault on a page of a private segment leaves it resident, with the same rights and
with the contents it had, if it had any. -/
theorem faultPage_inv (hinv : UserInv w noHand ext s) (ha : w.addr v = some a)
    (hshared : (w.desc v).getShared = false) (hinseg : (w.desc v).getInseg = true)
    (h : s.faultPage a = .ok s') :
    ∃ w', UserInv w' noHand ext s' ∧ PagedBut ext (· = v) w s w' s' ∧
      (w'.desc v).Resident ∧ SameRights (w.desc v) (w'.desc v) ∧
      ∀ p, s.content (w.desc v) = some p → s'.content (w'.desc v) = some p := by
  have hlink := hinv.frames.link v a ha
  unfold faultPage at h
  rw [hlink] at h
  by_cases htbc : (w.desc v).getTbc = true
  · -- First touch: whatever the frame contains becomes the page.
    rw [if_pos htbc] at h
    obtain ⟨⟨f, u⟩, hrequest, h⟩ := Outcome.bind_ok h
    cases h
    obtain ⟨t, htake, rfl⟩ := usRequestPage_ok (by decide) hrequest
    obtain ⟨w₁, hinv₁, hpaged, _⟩ := usTakePage_inv hinv htake
    have hnr : ¬ (w.desc v).Resident := by
      intro hr
      rw [(hinv.clusters.shape v hr).2] at htbc
      cases htbc
    have hnp : ¬ (w.desc v).PagedOut := by
      intro hp
      rw [hp.2.2.2] at htbc
      cases htbc
    have hv₁ : w₁.desc v = w.desc v := (hpaged.kept v).desc_eq hnr
    have hmem : t.mem a = w.desc v := by
      rw [hinv₁.frames.link v a (by rw [hpaged.addr, ha]), hv₁]
    have hmem' : ∀ o p, (prepared t f a o p).mem a = w.desc v := fun _ _ => hmem
    rw [hmem', setPte_prepared]
    obtain ⟨hinv', hbut, hcontent⟩ := settle_taken (e := (((((w.desc v).setBlockDisk f).setValid
      true).setDirty false).setTbc false)) hpaged hinv₁ ha (by rwa [hv₁])
      (by simpa [Resident] using hshared)
      (by simpa using Nat.mod_eq_of_lt (hand_lt hinv₁.frames))
      (fun _ => by simpa using hinseg) (.inl ⟨rfl, by rwa [hv₁]⟩)
    refine ⟨_, hinv', hbut, ?_, ?_, ?_⟩
    · rw [PageView.put_desc_self]
      simpa [Resident] using hshared
    · rw [PageView.put_desc_self]
      exact sameRights_set (sameRights_set (sameRights_set (sameRights_setBlockDisk (.refl _) f)
        (by decide) (by decide)) (by decide) (by decide)) (by decide) (by decide)
    · intro p hp
      rw [content_none hnr hnp] at hp
      cases hp
  · rw [if_neg htbc] at h
    by_cases hvalid : (w.desc v).getValid = true
    · have hr : (w.desc v).Resident := ⟨hshared, hvalid⟩
      rw [if_neg (by simp [hvalid])] at h
      cases h
      exact ⟨w, hinv, .refl _ _ _ _, hr, .refl _, fun p hp => hp⟩
    · -- The page comes back from its cluster, which becomes the frame's origin.
      rw [if_pos (by simpa using hvalid)] at h
      obtain ⟨⟨f, u⟩, hrequest, h⟩ := Outcome.bind_ok h
      cases h
      obtain ⟨t, htake, rfl⟩ := usRequestPage_ok (block_lt _) hrequest
      obtain ⟨w₁, hinv₁, hpaged, _⟩ := usTakePage_inv hinv htake
      have hp : (w.desc v).PagedOut :=
        ⟨hshared, hinseg, by simpa using hvalid, by simpa using htbc⟩
      have hv₁ : w₁.desc v = w.desc v := (hpaged.kept v).desc_eq hp.not_resident
      have hmem : t.mem a = w.desc v := by
        rw [hinv₁.frames.link v a (by rw [hpaged.addr, ha]), hv₁]
      have hmem' : ∀ o p, (prepared t f a o p).mem a = w.desc v := fun _ _ => hmem
      rw [hmem', setPte_prepared, if_neg (hinv.clusters.block_ne_null hp), if_neg (by decide)]
      obtain ⟨hinv', hbut, hcontent⟩ := settle_taken (o := (w.desc v).block)
        (p := t.disk (w.desc v).block)
        (e := ((((w.desc v).setBlockDisk f).setValid true).setDirty false)) hpaged hinv₁ ha
        (by rw [hv₁]; exact hp.not_resident) (by simpa [Resident] using hshared)
        (by simpa using Nat.mod_eq_of_lt (hand_lt hinv₁.frames))
        (fun _ => by simpa using ⟨hinseg, hp.2.2.2⟩)
        (.inr ⟨by rwa [hv₁], by rw [hv₁], by simp, rfl⟩)
      refine ⟨_, hinv', hbut, ?_, ?_, ?_⟩
      · rw [PageView.put_desc_self]
        simpa [Resident] using hshared
      · rw [PageView.put_desc_self]
        exact sameRights_set (sameRights_set (sameRights_setBlockDisk (.refl _) f)
          (by decide) (by decide)) (by decide) (by decide)
      · intro p hcont
        rw [PageView.put_desc_self, hcontent]
        have hsame := (hpaged.kept v).2
        rw [hv₁, content_pagedOut hp] at hsame
        rw [← hcont, hsame.symm]

/-- A page outside every segment holds nothing. -/
theorem not_held_of_not_inseg (hshape : e.Shape) (hinseg : e.getInseg = false) :
    ¬ e.Resident ∧ ¬ e.PagedOut := by
  constructor
  · intro hr
    rw [(hshape hr).1] at hinseg
    cases hinseg
  · intro hp
    rw [hp.2.1] at hinseg
    cases hinseg

/-- A page that is added to a segment holds nothing until it is touched. -/
theorem mapPage_inv (hinv : UserInv w hand ext s) (ha : w.addr v = some a)
    (hinseg : (w.desc v).getInseg = false) (accType : AccessType) :
    UserInv (w.put v a ((w.desc v).setFlags (packFlags accType false true true true false)))
        hand ext (s.mapPage a accType) ∧
      PagedBut ext (· = v) w s
        (w.put v a ((w.desc v).setFlags (packFlags accType false true true true false)))
        (s.mapPage a accType) := by
  obtain ⟨hnr, hnp⟩ := not_held_of_not_inseg (hinv.clusters.shape v) hinseg
  unfold mapPage
  rw [hinv.frames.link v a ha]
  exact rewrite_inv hinv ha hnr hnp (by simp [Resident, get_setFlags_pack])
    (by simp [PagedOut, get_setFlags_pack])

/-- A loaded page is resident, and contains what it was given. -/
theorem loadPage_inv (hinv : UserInv w noHand ext s) (ha : w.addr v = some a)
    (hinseg : (w.desc v).getInseg = false) {accType : AccessType} {content : Page}
    (h : s.loadPage a accType content = .ok s') :
    ∃ w', UserInv w' noHand ext s' ∧ PagedBut ext (· = v) w s w' s' ∧
      (w'.desc v).Resident ∧
      (w'.desc v).flags = packFlags accType true true true false false ∧
      s'.content (w'.desc v) = some content := by
  unfold loadPage at h
  obtain ⟨⟨f, u⟩, hload, h⟩ := Outcome.bind_ok h
  cases h
  obtain ⟨t, htake, rfl⟩ := usLoadPage_ok hload
  obtain ⟨w₁, hinv₁, hpaged, _⟩ := usTakePage_inv hinv htake
  obtain ⟨hnr, hnp⟩ := not_held_of_not_inseg (hinv.clusters.shape v) hinseg
  have hv₁ : w₁.desc v = w.desc v := (hpaged.kept v).desc_eq hnr
  have hmem : (prepared t f a nullCluster content).mem a = w.desc v := by
    have hlink := hinv₁.frames.link v a (by rw [hpaged.addr, ha])
    rw [← hv₁, ← hlink]
    rfl
  rw [hmem, setPte_prepared]
  obtain ⟨hinv', hbut, hcontent⟩ := settle_taken (e := (((w.desc v).setBlockDisk f).setFlags
    (packFlags accType true true true false false))) hpaged hinv₁ ha (by rwa [hv₁])
    (by simp [Resident, get_setFlags_pack])
    (by simpa using Nat.mod_eq_of_lt (hand_lt hinv₁.frames))
    (fun _ => by simp [get_setFlags_pack]) (.inl ⟨rfl, by rwa [hv₁]⟩)
  refine ⟨_, hinv', hbut, ?_, ?_, ?_⟩
  · rw [PageView.put_desc_self]
    simp [Resident, get_setFlags_pack]
  · rw [PageView.put_desc_self, flags_setFlags]
  · rw [PageView.put_desc_self, hcontent]

/-- The view without the descriptor of `v`, which for the moment names what another
page holds. -/
def PageView.detach (w : PageView V D) (v : V) : PageView V D :=
  { w with addr := update w.addr v none }

theorem detach_inv (hinv : UserInv w hand ext s) (hnot : ¬ (w.desc v).Resident)
    (ha : w.addr v = some a) (e : PageTableL2Entry) :
    UserInv (w.detach v) hand ext (s.setPte a e) := by
  refine ⟨⟨hinv.frames.typed, hinv.frames.size_le, hinv.frames.nodup, hinv.frames.ledger,
    ?_, ?_, ?_⟩, ⟨hinv.clusters.ledger, hinv.clusters.small, hinv.clusters.shape,
    hinv.clusters.agree, hinv.clusters.clean⟩⟩
  · intro v' hr
    have hvv : v' ≠ v := by
      rintro rfl
      exact hnot hr
    simp only [PageView.detach, update_of_ne hvv]
    exact hinv.frames.owner v' hr
  · intro v' b hb
    have hvv : v' ≠ v := by
      rintro rfl
      simp [PageView.detach] at hb
    simp only [PageView.detach, update_of_ne hvv] at hb
    have hba : b ≠ a := fun heq => addr_ne_of_addr hinv.frames ha v' hvv (heq ▸ hb)
    simp only [PageView.detach, setPte, update_of_ne hba]
    exact hinv.frames.link v' b hb
  · intro v₁ v₂ b h₁ h₂
    have hne : ∀ v', (w.detach v).addr v' = some b → w.addr v' = some b := by
      intro v' hv'
      have hvv : v' ≠ v := by
        rintro rfl
        simp [PageView.detach] at hv'
      simpa only [PageView.detach, update_of_ne hvv] using hv'
    exact hinv.frames.addr_inj v₁ v₂ b (hne v₁ h₁) (hne v₂ h₂)

/-- Whichever way the copy is made, a frame is taken that is not the source's and filled
with the source's contents. -/
theorem copyOfPage_ok {u : V} {b : D} (hinv : UserInv w noHand ext s)
    (hb : w.addr u = some b) (hlive : (w.desc u).Resident ∨ (w.desc u).PagedOut)
    (h : s.copyOfPage a b = .ok (f, s')) :
    ∃ t w₁ p, UserInv w₁ (· = f) ext t ∧ Paged ext w s w₁ t ∧
      s.content (w.desc u) = some p ∧ s' = prepared t f a nullCluster p := by
  have hlink := hinv.frames.link u b hb
  unfold copyOfPage at h
  rw [hlink] at h
  obtain hr | hp := hlive
  · rw [if_neg (by simp [hr.2])] at h
    obtain ⟨t, htake, rfl⟩ := usClonePage_ok h
    obtain ⟨w₁, hinv₁, hpaged, husr, _⟩ := usTakePage_inv hinv htake
    exact ⟨t, w₁, _, hinv₁, hpaged, content_resident hr, by rw [husr]⟩
  · rw [if_pos (by simp [hp.2.2.1])] at h
    obtain ⟨t, htake, rfl⟩ := usRequestPage_ok (block_lt _) h
    obtain ⟨w₁, hinv₁, hpaged, _⟩ := usTakePage_inv hinv htake
    refine ⟨t, w₁, t.disk (w.desc u).block, hinv₁, hpaged, ?_, ?_⟩
    · have hu₁ : w₁.desc u = w.desc u := (hpaged.kept u).desc_eq hp.not_resident
      have hsame := (hpaged.kept u).2
      rw [hu₁, content_pagedOut hp] at hsame
      exact hsame.symm
    · rw [if_pos rfl, if_neg (hinv.clusters.block_ne_null hp)]

/-- A cloned page has a frame of its own with the source's contents, and is dirty. -/
theorem clonePage_inv {u : V} {b : D} (hinv : UserInv w noHand ext s)
    (ha : w.addr v = some a) (hb : w.addr u = some b) (hne : u ≠ v)
    (hinseg : (w.desc v).getInseg = false)
    (hlive : (w.desc u).Resident ∨ (w.desc u).PagedOut) (h : s.clonePage a b = .ok s') :
    ∃ w', UserInv w' noHand ext s' ∧ PagedBut ext (· = v) w s w' s' ∧
      (w'.desc v).Resident ∧ SameRights (w.desc u) (w'.desc v) ∧
      s'.content (w'.desc v) = s.content (w.desc u) := by
  obtain ⟨hnr, hnp⟩ := not_held_of_not_inseg (hinv.clusters.shape v) hinseg
  have hu : s.mem b = w.desc u := hinv.frames.link u b hb
  have hshared : (w.desc u).getShared = false := hlive.elim (·.1) (·.1)
  have hseg : (w.desc u).getInseg = true ∧ (w.desc u).getTbc = false :=
    hlive.elim (fun hr => hinv.clusters.shape u hr) (fun hp => ⟨hp.2.1, hp.2.2.2⟩)
  unfold clonePage at h
  obtain ⟨⟨f, s₁⟩, hcopy, h⟩ := Outcome.bind_ok h
  cases h
  have hinv₀ := detach_inv hinv hnr ha (s.mem b)
  have hb₀ : (w.detach v).addr u = some b := by
    simpa only [PageView.detach, update_of_ne hne] using hb
  obtain ⟨t, w₁, p, hinv₁, hpaged, hcont, rfl⟩ := copyOfPage_ok hinv₀ hb₀ hlive hcopy
  have hv₁ : w₁.desc v = w.desc v := (hpaged.kept v).desc_eq hnr
  have hother₀ : ∀ v', (w.detach v).addr v' ≠ some a := by
    intro v' hv'
    by_cases hvv : v' = v
    · subst v'
      simp [PageView.detach] at hv'
    · simp only [PageView.detach, update_of_ne hvv] at hv'
      exact addr_ne_of_addr hinv.frames ha v' hvv hv'
  -- Paging leaves the half-made descriptor alone: no page has it as its own.
  have hmem : (prepared t f a nullCluster p).mem a = w.desc u := by
    have hkeep := hpaged.mem a hother₀
    simp only [setPte, update_self, hu] at hkeep
    exact hkeep
  rw [hmem, setPte_prepared]
  obtain ⟨hinv', hcontent, hothers⟩ := settle_inv (v := v) (o := nullCluster) (p := p)
    (e := ((((w.desc u).setBlockDisk f).setDirty true).setValid true)) hinv₁
    (fun v' _ => by rw [hpaged.addr]; exact hother₀ v') (by rwa [hv₁])
    (by simpa [Resident] using hshared)
    (by simpa using Nat.mod_eq_of_lt (hand_lt hinv₁.frames))
    (fun _ => by simpa using hseg) (.inl ⟨rfl, by rwa [hv₁]⟩)
  refine ⟨_, hinv', ⟨?_, ?_, ?_, ?_, hpaged.userspcSize, hpaged.diskSize⟩, ?_, ?_, ?_⟩
  · funext v'
    by_cases hvv : v' = v
    · subst v'
      rw [PageView.put_addr_self, ha]
    · rw [PageView.put_addr_of_ne _ hvv, hpaged.addr]
      simp only [PageView.detach, update_of_ne hvv]
  · intro v' hvv
    rw [PageView.put_desc_of_ne _ hvv]
    obtain ⟨hdesc, hsame⟩ := hpaged.kept v'
    exact ⟨hdesc, (hothers v' hvv).trans hsame⟩
  · intro b' hb'
    have hba : b' ≠ a := fun heq => hb' v (heq ▸ ha)
    simp only [settled, update_of_ne hba]
    rw [hpaged.mem b' ?_]
    · simp only [setPte, update_of_ne hba]
    · intro v' hv'
      by_cases hvv : v' = v
      · subst v'
        simp [PageView.detach] at hv'
      · simp only [PageView.detach, update_of_ne hvv] at hv'
        exact hb' v' hv'
  · intro x c hc
    exact hpaged.disk x c hc
  · rw [PageView.put_desc_self]
    simpa [Resident] using hshared
  · rw [PageView.put_desc_self]
    exact sameRights_set (sameRights_set (sameRights_setBlockDisk (.refl _) f)
      (by decide) (by decide)) (by decide) (by decide)
  · rw [PageView.put_desc_self, hcontent]
    exact hcont.symm

section Stop

variable {halt : Halt}

theorem faultPage_error (hinv : UserInv w noHand ext s) (hpos : 0 < s.userspcSize)
    (h : s.faultPage a = .error halt) :
    halt.Excused := by
  unfold faultPage at h
  split at h
  · obtain h | ⟨r, _, h⟩ := Outcome.bind_error h
    · exact usTakePage_error hinv hpos (usRequestPage_error h)
    · cases h
  · split at h
    · obtain h | ⟨r, _, h⟩ := Outcome.bind_error h
      · exact usTakePage_error hinv hpos (usRequestPage_error h)
      · cases h
    · cases h

theorem loadPage_error (hinv : UserInv w noHand ext s) (hpos : 0 < s.userspcSize)
    {accType : AccessType} {content : Page} (h : s.loadPage a accType content = .error halt) :
    halt.Excused := by
  unfold loadPage at h
  obtain h | ⟨r, _, h⟩ := Outcome.bind_error h
  · exact usTakePage_error hinv hpos (usLoadPage_error h)
  · cases h

theorem clonePage_error {b : D} (hinv : UserInv w noHand ext s) (hpos : 0 < s.userspcSize)
    (ha : w.addr v = some a) (hnot : ¬ (w.desc v).Resident) (h : s.clonePage a b = .error halt) :
    halt.Excused := by
  unfold clonePage at h
  obtain h | ⟨r, _, h⟩ := Outcome.bind_error h
  · have hinv₀ := detach_inv hinv hnot ha (s.mem b)
    unfold copyOfPage at h
    split at h
    · exact usTakePage_error hinv₀ hpos (usRequestPage_error h)
    · exact usTakePage_error hinv₀ hpos (usClonePage_error h)
  · cases h

omit [DecidableEq V] in
/-- A release never stops: the cluster of a paged out page is a valid one. -/
theorem releasePage_ne_error (hinv : UserInv w hand ext s) (ha : w.addr v = some a)
    (hshared : (w.desc v).getShared = false) (hinseg : (w.desc v).getInseg = true) :
    s.releasePage a ≠ .error halt := by
  intro h
  unfold releasePage at h
  rw [hinv.frames.link v a ha] at h
  obtain h | ⟨r, _, h⟩ := Outcome.bind_error h
  · unfold relinquishHeld at h
    by_cases hvalid : (w.desc v).getValid = true
    · rw [if_pos hvalid] at h
      cases h
    · rw [if_neg hvalid] at h
      by_cases htbc : (w.desc v).getTbc = true
      · rw [if_pos htbc] at h
        cases h
      · rw [if_neg htbc] at h
        have hp : (w.desc v).PagedOut :=
          ⟨hshared, hinseg, by simpa using hvalid, by simpa using htbc⟩
        have hlt := hinv.clusters.block_lt hp
        have hnull := hinv.clusters.block_ne_null hp
        have hvalid : ¬ ((w.desc v).block = nullCluster ∨ s.diskSize ≤ (w.desc v).block) := by
          omega
        rw [relinquishCluster, if_neg hvalid] at h
        cases h
  · cases h

end Stop

end VirtualMemory
