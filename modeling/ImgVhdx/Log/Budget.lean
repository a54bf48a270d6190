import ImgVhdx.Log.Batches

/-! The checksum budget: a scan that was not cut short by it is the scan with nothing to pay, and a region whose slots
declare spans that do not overlap never runs out of it. -/
namespace ImgVhdx
open Lib

/-- The slot at `pos` as its first sector has it: signed, under the chain's GUID, and of a length the region can hold. -/
structure Declares (log : Bytes) (guid : Guid) (pos n : Nat) : Prop where
  within : pos + logSectorSize ≤ log.length
  signature : slice log pos 4 = logEntrySignature
  length : n = ofLE (slice log (pos+8) 4)
  long : logSectorSize ≤ n
  whole : n % logSectorSize = 0
  fits : n ≤ log.length
  ours : slice log (pos+32) 16 = guid.1

/-- No two slots declare spans that share a byte of the circle. -/
def DeclaredApart (log : Bytes) (guid : Guid) : Prop :=
  ∀ p q n m, p % logSectorSize = 0 → q % logSectorSize = 0 → p ≠ q → Declares log guid p n → Declares log guid q m →
    ∀ i j, i < n → j < m → (p + i) % log.length ≠ (q + j) % log.length

section unlimited
variable [Crc32c] (log : Bytes) (guid : Guid)

def probe (pos : Nat) : Outcome EntryReject LogEntry := do
  let (entryLength,logGuid) ← declaredLength log pos guid
  readEntry log pos entryLength logGuid

def discoverUnlimited (pos : Nat) : Outcome Error (List LogEntry) :=
  if pos + logSectorSize ≤ log.length then
    match probe log guid pos with
    | .ok entry => do
      let found ← discoverUnlimited (pos + entry.header.entryLength)
      return entry :: found
    | .err _ => discoverUnlimited (pos + logSectorSize)
    | .panic => .panic
  else .ok []
termination_by log.length - pos
decreasing_by
  · have h := entry.long
    have : logSectorSize = 4096 := rfl
    omega
  · have : logSectorSize = 4096 := rfl
    omega

def collectUnlimited : Outcome Error (List LogEntry) := do
  if isZeroGuid guid then return []
  let found ← discoverUnlimited log guid 0
  selectChain log.length found

end unlimited

section slots
variable {log : Bytes} {guid : Guid} {pos n : Nat}

theorem declares_of_ok {k : { n : Nat // logSectorSize ≤ n }} {g : Guid} (h : declaredLength log pos guid = .ok (k,g)) :
    Declares log guid pos k.1 ∧ g = guid := by
  obtain ⟨hp,hw,hn,hg⟩ := declaredLength_eq_ok h
  have hs : slice log pos 4 = logEntrySignature := by
    by_contra hs
    rw [declaredLength_of_unsigned hs] at h
    cases h
  rw [declaredLength_of_le hp hs] at h
  split_ifs at h with hbad hguid
  obtain ⟨rfl,-⟩ := Prod.mk.inj (Outcome.ok.inj h)
  exact ⟨⟨hp,hs,rfl,by dsimp only; omega,hw,hn,hguid⟩,hg⟩

theorem Declares.ok (h : Declares log guid pos n) : declaredLength log pos guid = .ok (⟨n,h.long⟩,guid) := by
  have hlong := h.long
  have hwhole := h.whole
  have hfits := h.fits
  obtain rfl := h.length
  rw [declaredLength_of_le h.within h.signature,dif_neg (by omega),if_pos h.ours]

/-- A slot that declares a span is the only one that starts in it. -/
theorem DeclaredApart.le (ha : DeclaredApart log guid) {q m : Nat} (hp : pos % logSectorSize = 0)
    (hq : q % logSectorSize = 0) (h : Declares log guid pos n) (hm : Declares log guid q m) (hlt : pos < q) :
    pos + n ≤ q := by
  by_contra hin
  have hn := h.long
  have hmlong := hm.long
  have hsize : logSectorSize = 4096 := rfl
  refine ha pos q n m hp hq (by omega) h hm (q - pos) 0 (by omega) (by omega) ?_
  rw [Nat.add_sub_cancel' hlt.le,Nat.add_zero]

/-- In a region with nothing signed but its entries, the slots that declare a span are theirs. -/
private theorem Slots.declaredApart [Crc32c] {es : List LogEntry} (h : Slots log guid es)
    (hapart : ∀ a ∈ es, ∀ b ∈ es, a.logOffsetInRegion ≠ b.logOffsetInRegion → ∀ i < a.header.entryLength,
      ∀ j < b.header.entryLength, (a.logOffsetInRegion + i) % log.length ≠ (b.logOffsetInRegion + j) % log.length) :
    DeclaredApart log guid := by
  have hentry : ∀ p n, p % logSectorSize = 0 → Declares log guid p n → ∃ e ∈ es, e.logOffsetInRegion = p ∧
      e.header.entryLength = n := by
    intro p n hp hd
    have hin : p < log.length := Nat.lt_of_lt_of_le (Nat.lt_add_of_pos_right (by decide)) hd.within
    obtain ⟨e,he,rfl⟩ : ∃ e ∈ es, e.logOffsetInRegion = p := by
      by_contra hno
      push Not at hno
      exact h.unsigned p hin hp hno hd.signature
    refine ⟨e,he,rfl,?_⟩
    have hsame := (h.parses e he).1.symm.trans hd.ok
    exact congrArg (fun x => x.1.1) (Outcome.ok.inj hsame)
  intro p q n m hp hq hne hdp hdq i j hi hj
  obtain ⟨a,ha,rfl,rfl⟩ := hentry p n hp hdp
  obtain ⟨b,hb,rfl,rfl⟩ := hentry q m hq hdq
  exact hapart a ha b hb hne i hi j hj

end slots

section scans
variable [Crc32c] {log : Bytes} {guid : Guid} {pos : Nat} {budget : ChecksumBudget}

theorem probe_cases (log : Bytes) (guid : Guid) (pos : Nat) : (∃ why, probe log guid pos = .err why) ∨
    ∃ e, probe log guid pos = .ok e ∧ e.logOffsetInRegion = pos ∧ e.Sound log guid ∧
    Declares log guid pos e.header.entryLength := by
  unfold probe
  cases hd : declaredLength log pos guid with
  | err why => exact .inl ⟨why,rfl⟩
  | panic => exact absurd hd declaredLength_ne_panic
  | ok r =>
    obtain ⟨n,g⟩ := r
    obtain ⟨hdecl,rfl⟩ := declares_of_ok hd
    rw [Outcome.ok_bind]
    dsimp only
    cases hr : readEntry log pos n g with
    | err why => exact .inl ⟨why,rfl⟩
    | panic => exact absurd hr (readEntry_ne_panic hdecl.within hdecl.fits)
    | ok e =>
      obtain ⟨ho,hl,hs⟩ := readEntry_eq_ok hdecl.within hdecl.fits hdecl.whole hr
      exact .inr ⟨e,rfl,ho,hs,hl ▸ hdecl⟩

/-- A slot is charged its declared length and examined, or refused and the budget marked. -/
theorem parseLogEntry_charged (log : Bytes) (guid : Guid) (pos : Nat) (budget : ChecksumBudget) :
    (∃ n, Declares log guid pos n ∧ budget.left < n ∧ parseLogEntry log pos guid budget =
      (.err .corrupt,{ budget with exhausted := true })) ∨
    (∃ n, Declares log guid pos n ∧ n ≤ budget.left ∧
      parseLogEntry log pos guid budget = (probe log guid pos,{ budget with left := budget.left - n })) ∨
    ((∀ n, ¬ Declares log guid pos n) ∧ parseLogEntry log pos guid budget = (probe log guid pos,budget)) := by
  unfold parseLogEntry probe
  cases hd : declaredLength log pos guid with
  | err why =>
    refine .inr (.inr ⟨fun n hn => ?_,rfl⟩)
    rw [hn.ok] at hd
    cases hd
  | panic => exact absurd hd declaredLength_ne_panic
  | ok r =>
    obtain ⟨n,g⟩ := r
    obtain ⟨hdecl,rfl⟩ := declares_of_ok hd
    dsimp only
    split_ifs with hb
    · exact .inl ⟨n,hdecl,hb,rfl⟩
    · exact .inr (.inl ⟨n,hdecl,by omega,rfl⟩)

/-- The mark stays once it is set, so a scan that ends without it charged nothing it could not pay. -/
private theorem discoverUnlimited_of_unmarked (pos : Nat) (budget : ChecksumBudget) {found : List LogEntry}
    {b : ChecksumBudget} (h : discoverFrom log guid pos budget = .ok (found,b)) (hb : b.exhausted = false) :
    budget.exhausted = false ∧ discoverUnlimited log guid pos = .ok found := by
  induction hm : log.length - pos using Nat.strong_induction_on generalizing pos budget found with
  | _ m ih =>
    have hsize : logSectorSize = 4096 := rfl
    rw [discoverFrom] at h
    rw [discoverUnlimited]
    by_cases hp : pos + logSectorSize ≤ log.length
    · rw [if_pos hp] at h ⊢
      have hexamined : ∀ b1, b1.exhausted = budget.exhausted → parseLogEntry log pos guid budget =
        (probe log guid pos,b1) →
          budget.exhausted = false ∧ (match probe log guid pos with
            | .ok entry => do
              let found ← discoverUnlimited log guid (pos + entry.header.entryLength)
              return entry :: found
            | .err _ => discoverUnlimited log guid (pos + logSectorSize)
            | .panic => .panic) = .ok found := by
        intro b1 hb1 hparse
        rw [hparse] at h
        rcases probe_cases log guid pos with ⟨why,hw⟩ | ⟨e,he,-⟩
        · rw [hw] at h ⊢
          obtain ⟨hbud,hrest⟩ := ih _ (by omega) (pos + logSectorSize) b1 h rfl
          exact ⟨hb1 ▸ hbud,hrest⟩
        · rw [he] at h ⊢
          have hlong := e.long
          obtain ⟨⟨found',b'⟩,hrest,hret⟩ := Outcome.bind_eq_ok.mp h
          obtain ⟨rfl,rfl⟩ := Prod.mk.inj (Outcome.ok.inj hret)
          obtain ⟨hbud,hrest⟩ := ih _ (by omega) (pos + e.header.entryLength) b1 hrest rfl
          refine ⟨hb1 ▸ hbud,?_⟩
          dsimp only
          rw [hrest]
          rfl
      rcases parseLogEntry_charged log guid pos budget with ⟨n,-,-,hparse⟩ | ⟨n,-,-,hparse⟩ | ⟨-,hparse⟩
      · rw [hparse] at h
        exact absurd (ih _ (by omega) (pos + logSectorSize) _ h rfl).1 (by simp)
      · exact hexamined { budget with left := budget.left - n } rfl hparse
      · exact hexamined budget rfl hparse
    · rw [if_neg hp] at h ⊢
      obtain ⟨rfl,rfl⟩ := Prod.mk.inj (Outcome.ok.inj h)
      exact ⟨hb,rfl⟩

private theorem collectReplayChain_of_not_refused (h : collectReplayChain log guid ≠ .err budgetExhausted) :
    collectReplayChain log guid = collectUnlimited log guid := by
  unfold collectReplayChain at h ⊢
  unfold collectUnlimited
  split_ifs with hz
  · rfl
  · obtain ⟨found,checked,exhausted,hf,-⟩ := discover_ok log guid
    have hscan := hf
    unfold discover at hscan
    obtain ⟨⟨found',b⟩,hfrom,hret⟩ := Outcome.bind_eq_ok.mp hscan
    change Outcome.ok (found',_,b.exhausted) = _ at hret
    obtain ⟨rfl,hflag⟩ := Prod.mk.inj (Outcome.ok.inj hret)
    obtain ⟨-,rfl⟩ := Prod.mk.inj hflag
    rw [if_neg hz,hf] at h
    rw [hf]
    cases hb : b.exhausted with
    | true =>
      rw [hb] at h
      exact absurd rfl h
    | false =>
      rw [(discoverUnlimited_of_unmarked 0 _ hfrom hb).2]
      rfl

omit [Crc32c] in
private theorem selectChain_ne_budgetExhausted {len : Nat} {found : List LogEntry} :
    selectChain len found ≠ .err budgetExhausted := by
  cases found with
  | nil =>
    intro h
    cases h
  | cons first rest =>
    rw [selectChain]
    split <;> (intro h; cases h)

/-- What is left covers every span still to be declared: the last one charged ended at `stop`, none starts before it,
and two lengths of the region, less what lies before `stop`, remain. -/
structure Covers (log : Bytes) (guid : Guid) (pos left stop : Nat) : Prop where
  left : 2 * log.length ≤ left + stop
  ahead : ∀ q m, q % logSectorSize = 0 → pos ≤ q → Declares log guid q m → stop ≤ q

omit [Crc32c] in
theorem Covers.skip {left stop k : Nat} (h : Covers log guid pos left stop) (hk : pos ≤ k) :
    Covers log guid k left stop :=
  ⟨h.left,fun q m hq hle hd => h.ahead q m hq (hk.trans hle) hd⟩

omit [Crc32c] in
private theorem Covers.charge {left stop n k : Nat} (h : Covers log guid pos left stop) (ha : DeclaredApart log guid)
    (hpos : pos % logSectorSize = 0) (hd : Declares log guid pos n) (hk : pos < k) :
    n ≤ left ∧ Covers log guid k (left - n) (pos + n) := by
  have hleft := h.left
  have hstop := h.ahead pos n hpos le_rfl hd
  have hin := hd.within
  have hfits := hd.fits
  refine ⟨by omega,by omega,fun q m hq hle hm => ha.le hpos hq hd hm (by omega)⟩

/-- Where the declared spans do not overlap, the scan pays for every slot and finds those that hold an entry. -/
private theorem discoverFrom_of_apart (ha : DeclaredApart log guid) (pos : Nat) (budget : ChecksumBudget) {stop : Nat}
    (hpos : pos % logSectorSize = 0) (hc : Covers log guid pos budget.left stop) :
    ∃ found b, discoverFrom log guid pos budget = .ok (found,b) ∧ b.exhausted = budget.exhausted ∧
      ∀ e, e ∈ found ↔ ∃ q, q % logSectorSize = 0 ∧ pos ≤ q ∧ probe log guid q = .ok e := by
  induction hm : log.length - pos using Nat.strong_induction_on generalizing pos budget stop with
  | _ m ih =>
    have hsize : logSectorSize = 4096 := rfl
    rw [discoverFrom]
    by_cases hp : pos + logSectorSize ≤ log.length
    · rw [if_pos hp]
      -- whatever the slot cost, it was examined, and what is left covers what is ahead of it
      obtain ⟨b1,stop1,hparse,hmark,hc1⟩ : ∃ b1 stop1, parseLogEntry log pos guid budget = (probe log guid pos,b1) ∧
          b1.exhausted = budget.exhausted ∧ ∀ k, pos < k → Covers log guid k b1.left stop1 := by
        rcases parseLogEntry_charged log guid pos budget with ⟨n,hd,hlt,-⟩ | ⟨n,hd,-,hparse⟩ | ⟨-,hparse⟩
        · have := (hc.charge ha hpos hd (Nat.lt_succ_self pos)).1
          omega
        · exact ⟨_,pos + n,hparse,rfl,fun k hk => (hc.charge ha hpos hd hk).2⟩
        · exact ⟨budget,stop,hparse,rfl,fun k hk => hc.skip hk.le⟩
      rw [hparse]
      rcases probe_cases log guid pos with ⟨why,hw⟩ | ⟨e,he,ho,-,hd⟩
      · rw [hw]
        obtain ⟨found,b,hf,hb,hmem⟩ := ih _ (by omega) (pos + logSectorSize) b1 ((Nat.add_mod_right _ _).trans hpos)
          (hc1 _ (by omega)) rfl
        refine ⟨found,b,hf,hb.trans hmark,fun e => (hmem e).trans ⟨?_,?_⟩⟩
        · rintro ⟨q,hq,hle,hpr⟩
          exact ⟨q,hq,by omega,hpr⟩
        · rintro ⟨q,hq,hle,hpr⟩
          have hne : q ≠ pos := by
            rintro rfl
            rw [hw] at hpr
            cases hpr
          have hq' : q % 4096 = 0 := hq
          have hpos' : pos % 4096 = 0 := hpos
          exact ⟨q,hq,by omega,hpr⟩
      · rw [he]
        have hlong := e.long
        have hnext : (pos + e.header.entryLength) % logSectorSize = 0 := by
          rw [Nat.add_mod,hpos,hd.whole]
          rfl
        obtain ⟨found,b,hf,hb,hmem⟩ := ih _ (by omega) (pos + e.header.entryLength) b1 hnext (hc1 _ (by omega)) rfl
        dsimp only
        rw [hf]
        refine ⟨e :: found,b,rfl,hb.trans hmark,fun a => ?_⟩
        rw [List.mem_cons,hmem a]
        constructor
        · rintro (rfl | ⟨q,hq,hle,hpr⟩)
          · exact ⟨pos,hpos,le_rfl,he⟩
          · exact ⟨q,hq,by omega,hpr⟩
        · rintro ⟨q,hq,hle,hpr⟩
          rcases Nat.eq_or_lt_of_le hle with rfl | hlt
          · rw [he] at hpr
            exact .inl (Outcome.ok.inj hpr).symm
          · obtain ⟨why,hw⟩ | ⟨a',ha',-,-,hda⟩ := probe_cases log guid q
            · rw [hw] at hpr
              cases hpr
            · exact .inr ⟨q,hq,ha.le hpos hq hd hda hlt,hpr⟩
    · rw [if_neg hp]
      refine ⟨[],budget,rfl,rfl,fun e => ⟨fun h => absurd h List.not_mem_nil,?_⟩⟩
      rintro ⟨q,-,hle,hpr⟩
      obtain ⟨why,hw⟩ | ⟨a,ha',-,-,hda⟩ := probe_cases log guid q
      · rw [hw] at hpr
        cases hpr
      · have := hda.within
        omega

/-- What the replayer returns is what it would return with no budget, unless it refuses the region for the budget; and
it does not so refuse a region whose slots declare spans that do not overlap, where it finds every slot that holds an
entry, in order. -/
theorem budget_changes_no_answer (hg : isZeroGuid guid = false) (hl : log.length < 2^63) :
    (collectReplayChain log guid ≠ .err budgetExhausted → collectReplayChain log guid = collectUnlimited log guid) ∧
    (DeclaredApart log guid → collectReplayChain log guid ≠ .err budgetExhausted ∧
      ∃ found checked, discover log guid = .ok (found,checked,false) ∧
        found.Pairwise (fun a b => a.logOffsetInRegion < b.logOffsetInRegion) ∧
        ∀ e, e ∈ found ↔ ∃ pos n, pos % logSectorSize = 0 ∧ Declares log guid pos n ∧ probe log guid pos = .ok e) := by
  refine ⟨collectReplayChain_of_not_refused,fun ha => ?_⟩
  have hc : Covers log guid 0 (saturatingMul log.length discoveryChecksumPasses) 0 := by
    refine ⟨?_,fun _ _ _ _ _ => Nat.zero_le _⟩
    unfold saturatingMul discoveryChecksumPasses
    omega
  obtain ⟨found,b,hf,hb,hmem⟩ := discoverFrom_of_apart ha 0
    { left := saturatingMul log.length discoveryChecksumPasses, exhausted := false } rfl hc
  have hdisc : discover log guid = .ok (found,saturatingMul log.length discoveryChecksumPasses - b.left,false) := by
    rw [discover]
    dsimp only
    rw [hf]
    exact congrArg (fun x => Outcome.ok (found,saturatingMul log.length discoveryChecksumPasses - b.left,x)) hb
  refine ⟨?_,found,_,hdisc,?_,fun e => (hmem e).trans ⟨?_,?_⟩⟩
  · rw [collectReplayChain,if_neg (by rw [hg]; exact Bool.false_ne_true),hdisc]
    change selectChain log.length found ≠ _
    exact selectChain_ne_budgetExhausted
  · obtain ⟨found',_,_,hd,hdiscovered⟩ := discover_ok log guid
    rw [hdisc] at hd
    obtain ⟨rfl,-⟩ := Prod.mk.inj (Outcome.ok.inj hd)
    exact hdiscovered.apart.imp fun {x y} hxy => by have := x.long; have : logSectorSize = 4096 := rfl; omega
  · rintro ⟨q,hq,-,hpr⟩
    obtain ⟨why,hw⟩ | ⟨a,ha',-,-,hda⟩ := probe_cases log guid q
    · rw [hw] at hpr
      cases hpr
    · exact ⟨q,_,hq,hda,hpr⟩
  · rintro ⟨q,n,hq,-,hpr⟩
    exact ⟨q,hq,Nat.zero_le _,hpr⟩

end scans

/-- In a region of three entries, the first of which goes round its end, each is found, and the budget decides nothing. -/
theorem budget_changes_no_answer_three_batches :
    letI := castagnoli
    let guid : Guid := ⟨1 :: zeros 15,by simp⟩
    DeclaredApart (threeBatchRegion guid) guid ∧
    collectReplayChain (threeBatchRegion guid) guid = collectUnlimited (threeBatchRegion guid) guid ∧
    ∃ found checked, discover (threeBatchRegion guid) guid = .ok (found,checked,false) ∧
      found.Pairwise (fun a b => a.logOffsetInRegion < b.logOffsetInRegion) ∧ ∀ e, e ∈ found ↔ e ∈ threeEntries guid := by
  let := castagnoli
  intro guid
  have hlen := length_threeBatchRegion (g := guid)
  have hat : ∀ e ∈ threeEntries guid, (e.logOffsetInRegion,e.header.entryLength,e.header.sequenceNumber) ∈
      [(16384,8192,7),(4096,8192,8),(12288,4096,9)] := fun e he => threeEntries_at (g := guid) ▸ List.mem_map_of_mem he
  have hapart : DeclaredApart (threeBatchRegion guid) guid := by
    refine slots_threeBatchRegion.declaredApart fun a ha b hb hne i hi j hj => ?_
    have ha := hat a ha
    have hb := hat b hb
    simp only [List.mem_cons,Prod.mk.injEq,List.not_mem_nil,or_false] at ha hb
    rw [hlen]
    omega
  obtain ⟨hsame,hfinds⟩ := budget_changes_no_answer (show isZeroGuid guid = false by simp [guid,isZeroGuid])
    (show (threeBatchRegion guid).length < 2^63 by rw [hlen]; decide)
  obtain ⟨hno,found,checked,hdisc,hordered,-⟩ := hfinds hapart
  exact ⟨hapart,hsame hno,found,checked,hdisc,hordered,fun e => slots_threeBatchRegion.mem_discover
    (by rw [hlen]; decide) hdisc⟩

end ImgVhdx
