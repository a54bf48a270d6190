import ImgVhdx.Log.Front

/-! Regions by the GUIDs in their slots: where none carries the chain's there is nothing to replay, and
where only an entry at the front does, there is that entry. -/
namespace ImgVhdx
open Lib

section
variable [Crc32c] {log : Bytes} {guid : Guid}

omit [Crc32c] in
def Stamped (log : Bytes) (guid : Guid) (pos : Nat) : Prop :=
  slice log pos 4 = logEntrySignature ∧ slice log (pos + 32) 16 = guid.1

omit [Crc32c] in
def Unstamped (log : Bytes) (guid : Guid) (pos : Nat) : Prop :=
  ∀ k, pos + k * logSectorSize + logSectorSize ≤ log.length → ¬ Stamped log guid (pos + k * logSectorSize)

omit [Crc32c] in
private theorem declaredLength_of_not_stamped {pos : Nat} (hp : pos + logSectorSize ≤ log.length)
    (h : ¬ Stamped log guid pos) :
    ∃ why, declaredLength log pos guid = .err why := by
  by_cases hs : slice log pos 4 = logEntrySignature
  · rw [declaredLength_of_le hp hs]
    split_ifs with hbad hg
    · exact ⟨_,rfl⟩
    · exact absurd ⟨hs,hg⟩ h
    · exact ⟨_,rfl⟩
  · exact ⟨_,declaredLength_of_unsigned hs⟩

omit [Crc32c] in
theorem Unstamped.next {pos : Nat} (h : Unstamped log guid pos) : Unstamped log guid (pos + logSectorSize) := by
  intro k hk
  have := h (k + 1)
  rw [Nat.succ_mul] at this
  rw [show pos + logSectorSize + k * logSectorSize = pos + (k * logSectorSize + logSectorSize) by omega] at hk ⊢
  exact this hk

private theorem scan_of_unstamped (pos : Nat) (h : Unstamped log guid pos) : Scan log guid pos [] := by
  induction hn : log.length + logSectorSize - pos using Nat.strongRecOn generalizing pos with
  | ind n ih =>
    have hsector : logSectorSize = 4096 := rfl
    rcases Nat.lt_or_ge log.length (pos + logSectorSize) with hlt | hle
    · exact .done hlt
    · have hfirst := h 0
      rw [Nat.zero_mul,Nat.add_zero] at hfirst
      obtain ⟨why,hmiss⟩ := declaredLength_of_not_stamped hle (hfirst hle)
      exact .miss hmiss (ih _ (by omega) _ h.next rfl)

/-- Nothing to replay. -/
private theorem collectReplayChain_of_unstamped (h : Unstamped log guid 0) (hlen : log.length < 2^63) :
    collectReplayChain log guid = .ok [] := by
  cases hg : isZeroGuid guid with
  | true =>
    rw [collectReplayChain,if_pos hg]
    rfl
  | false =>
    rw [(scan_of_unstamped 0 h).collect hlen hg]
    rfl

/-- The one entry. -/
theorem collectReplayChain_of_front {q f l : UInt64} {p : PendingWrite} (hlen : 8192 < log.length)
    (h32 : log.length < 2^32) (hg : isZeroGuid guid = false) (hw : encodedLength [p] = 8192)
    (henc : IsEncoded q 0 guid f l [p] (slice log 0 8192)) (hrest : Unstamped log guid 8192) :
    collectReplayChain log guid = .ok [encodedEntry 0 q 0 guid f l [p]] := by
  have hleft : leftovers log guid = .ok ([],_) := (scan_of_unstamped 8192 hrest).discoverFrom (Nat.zero_le _)
  obtain ⟨checked,hdisc⟩ := discover_front hlen h32 hw henc hleft
  obtain ⟨found,_,_,hdisc',hd⟩ := discover_ok log guid
  obtain ⟨rfl,-⟩ := Prod.mk.inj (Outcome.ok.inj (hdisc.symm.trans hdisc'))
  rw [collectReplayChain_eq hg hdisc]
  refine (if_neg (by simp)).trans ((selectChain_eq_single hd).mpr
    ⟨_,⟨List.mem_singleton_self _,?_,?_⟩,List.mem_singleton_self _,rfl,?_⟩)
  · intro e he
    rw [List.mem_singleton.mp he]
  · intro e he _
    rw [List.mem_singleton.mp he]
  · -- it ends where a second one would have to begin, and it begins at the front
    rintro e he ⟨hoff,-⟩
    rw [List.mem_singleton.mp he,show (encodedEntry 0 q 0 guid f l [p]).header.entryLength = 8192 from hw,
      show (encodedEntry 0 q 0 guid f l [p]).logOffsetInRegion = 0 from rfl,Nat.zero_add,Nat.mod_eq_of_lt hlen] at hoff
    cases hoff

section front
variable {front x y : Bytes}

omit [Crc32c] in
/-- A region of zeros carries no stamp. -/
theorem unstamped_zeros (n : Nat) (guid : Guid) (pos : Nat) : Unstamped (zeros n) guid pos := by
  intro k hk
  have hsector : logSectorSize = 4096 := rfl
  rw [length_zeros] at hk
  rintro ⟨hsig,-⟩
  rw [slice_zeros (by omega)] at hsig
  simp [zeros,logEntrySignature] at hsig

omit [Crc32c] in
theorem not_stamped_zeros (guid : Guid) : ¬ Stamped (zeros 8192) guid 0 :=
  unstamped_zeros 8192 guid 0 0 (by rw [length_zeros]; decide)

omit [Crc32c] in
/-- A slot past an entry over the front is what it was. -/
theorem Unstamped.behind_front (h : Unstamped log guid 8192) (hfront : front.length = 8192) (hlen : 8192 ≤ log.length) :
    Unstamped (splice log 0 front) guid 8192 := by
  intro k hk
  have hsector : logSectorSize = 4096 := rfl
  rw [length_splice (by omega)] at hk
  rintro ⟨hsig,hguid⟩
  rw [slice_splice_of_disjoint (by omega) (.inr (by omega))] at hsig hguid
  exact h k hk ⟨hsig,hguid⟩

/-- Bytes that store their own checksum, as a header and an entry do. -/
def Sealed (b : Bytes) : Prop := ofLE (slice b 4 4) = checksumOf b

omit [Crc32c] in
/-- Two sectors that begin no entry under this GUID, unless it be one that is two sectors long. -/
structure QuietFront (front : Bytes) (guid : Guid) : Prop where
  first : Stamped front guid 0 → ofLE (slice front 8 4) = 8192
  second : ¬ Stamped front guid 4096

omit [Crc32c] in
theorem stamped_congr {log log' : Bytes} {pos : Nat} (h : slice log' pos 512 = slice log pos 512) :
    Stamped log' guid pos ↔ Stamped log guid pos := by
  have hsame : ∀ {k n : Nat}, k + n ≤ 512 → slice log' (pos + k) n = slice log (pos + k) n := fun {k n} hk => by
    rw [← slice_slice hk,← slice_slice hk,h]
  have hsig := hsame (show 0 + 4 ≤ 512 by decide)
  unfold Stamped
  rw [hsame (show 32 + 16 ≤ 512 by decide),show slice log' pos 4 = slice log pos 4 from hsig]

omit [Crc32c] in
/-- Two quiet fronts mixed sector by sector are quiet. -/
theorem QuietFront.mixed (hx : QuietFront x guid) (hy : QuietFront y guid)
    (h0 : slice front 0 512 = slice x 0 512 ∨ slice front 0 512 = slice y 0 512)
    (h8 : slice front 4096 512 = slice x 4096 512 ∨ slice front 4096 512 = slice y 4096 512) :
    QuietFront front guid where
  first hs := by
    have hlength : ∀ {z : Bytes}, slice front 0 512 = slice z 0 512 → slice front 8 4 = slice z 8 4 := fun {z} hz => by
      have := congrArg (fun b => slice b 8 4) hz
      rwa [slice_slice (show 8 + 4 ≤ 512 by decide),slice_slice (show 8 + 4 ≤ 512 by decide),Nat.zero_add] at this
    rcases h0 with h | h
    · rw [hlength h]
      exact hx.first ((stamped_congr h).mp hs)
    · rw [hlength h]
      exact hy.first ((stamped_congr h).mp hs)
  second hs := by
    rcases h8 with h | h
    · exact hx.second ((stamped_congr h).mp hs)
    · exact hy.second ((stamped_congr h).mp hs)

/-- An entry of one sector is a quiet front under any GUID. -/
theorem quietFront_of_encoded {q f l : UInt64} {p : PendingWrite} {g : Guid} (henc : IsEncoded q 0 g f l [p] front)
    (hw : encodedLength [p] = 8192) :
    QuietFront front guid where
  first _ := by rw [henc.entryLength,ofLE_toLE (by rw [hw]; decide),hw]
  second hs := henc.interior (by rw [hw]; decide) (k := 4096) (by decide) (by rw [hw]; decide) (by decide) hs.1

/-- There is nothing to replay behind a quiet front that holds no entry of this GUID with its checksum. -/
theorem collectReplayChain_of_quiet (hq : QuietFront front guid) (hbroken : Stamped front guid 0 → ¬ Sealed front)
    (hfront : front.length = 8192) (hrest : Unstamped log guid 8192) (hlen : 8192 < log.length)
    (h32 : log.length < 2^32) : collectReplayChain (splice log 0 front) guid = .ok [] := by
  have hsector : logSectorSize = 4096 := rfl
  have hsize : (splice log 0 front).length = log.length := length_splice (by omega)
  have hback : slice (splice log 0 front) 0 8192 = front := slice_splice_same (by omega) hfront.symm
  have hat : ∀ {a n : Nat}, a + n ≤ 8192 → slice (splice log 0 front) a n = slice front a n := fun {a n} ha => by
    conv_rhs => rw [← hback]
    rw [slice_slice ha,Nat.zero_add]
  have hstamped : ∀ {pos : Nat}, pos + 48 ≤ 8192 → (Stamped (splice log 0 front) guid pos ↔ Stamped front guid pos) :=
      fun {pos} hp => by
    unfold Stamped
    rw [hat (by omega),hat (by omega)]
  have hbehind := hrest.behind_front hfront hlen.le
  have hsecond : Unstamped (splice log 0 front) guid 4096 := by
    intro k hk
    rcases Nat.eq_zero_or_pos k with rfl | hpos
    · exact fun hs => hq.second ((hstamped (by decide)).mp hs)
    · obtain ⟨j,rfl⟩ := Nat.exists_eq_add_of_le' hpos
      have := hbehind j
      rw [show 8192 + j * logSectorSize = 4096 + (j + 1) * logSectorSize by rw [hsector]; omega] at this
      exact this hk
  by_cases hs : Stamped front guid 0
  swap
  · refine collectReplayChain_of_unstamped (fun k hk => ?_) (by omega)
    rcases Nat.eq_zero_or_pos k with rfl | hpos
    · exact fun h => hs ((hstamped (by decide)).mp h)
    · obtain ⟨j,rfl⟩ := Nat.exists_eq_add_of_le' hpos
      have := hsecond j
      rw [show 4096 + j * logSectorSize = 0 + (j + 1) * logSectorSize by rw [hsector]; omega] at this
      exact this hk
  cases hg : isZeroGuid guid with
  | true =>
    rw [collectReplayChain,if_pos hg]
    rfl
  | false =>
    -- the slot at the front names a length and fails its checksum, so the scan goes on with the next sector
    have hdeclared : declaredLength (splice log 0 front) 0 guid = .ok (⟨8192,by decide⟩,guid) := by
      have hfields := (hstamped (show 0 + 48 ≤ 8192 by decide)).mpr hs
      have hlength : ofLE (slice (splice log 0 front) 8 4) = 8192 := by
        rw [hat (by decide)]
        exact hq.first hs
      have hsig : slice (splice log 0 front) 0 4 = logEntrySignature := hfields.1
      have hguid : slice (splice log 0 front) 32 16 = guid.1 := hfields.2
      rw [declaredLength_of_le (by omega) hsig]
      simp only [Nat.zero_add,hlength,hguid]
      rw [dif_neg (by rw [hsector]; omega)]
      exact if_pos trivial
    have hentry : readEntry (splice log 0 front) 0 ⟨8192,by decide⟩ guid = .err .corrupt := by
      rw [readEntry_of_le (by omega) (by dsimp only; omega),circSlice_of_le (by dsimp only; omega)]
      exact if_neg (by rw [hback]; exact hbroken hs)
    have hpass : 8192 ≤ saturatingMul (splice log 0 front).length discoveryChecksumPasses := by
      unfold saturatingMul discoveryChecksumPasses
      omega
    have hdisc : discover (splice log 0 front) guid = .ok ([],8192,false) := by
      rw [discover,discoverFrom,if_pos (by omega),parseLogEntry,hdeclared]
      dsimp only
      rw [if_neg (by omega),hentry]
      dsimp only
      rw [Nat.zero_add,(scan_of_unstamped logSectorSize (by rw [hsector]; exact hsecond)).discoverFrom (Nat.zero_le _)]
      simp only [Outcome.ok_bind,Outcome.pure_eq,List.map_nil,List.sum_nil,Nat.sub_zero]
      rw [Nat.sub_sub_self hpass]
    rw [collectReplayChain_eq hg hdisc]
    rfl

end front

end
end ImgVhdx
