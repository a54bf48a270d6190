import ImgVhdx.Log.RoundTrip
import ImgVhdx.Log.Tiling

/-! Whole chains: what a region yields, exactly, and that what the encoder lays round a
zeroed region is what the replayer takes out of it. -/
namespace ImgVhdx
open Lib

/-- The writes of one entry and the file offsets it records. -/
structure Batch where
  flushedFileOffset : UInt64
  lastFileOffset : UInt64
  writes : List PendingWrite

def Descriptor.replays : Descriptor → Option (Nat × Sector)
  | .zero _ _ _ => none
  | .data _ _ fileOffset _ sector => some (fileOffset,sector)

section batches
variable [Crc32c] (len : Nat) (tail : UInt32) (guid : Guid)

/-- The batches under consecutive sequence numbers, each encoded with one and the same tail. -/
def encodeBatches : UInt64 → List Batch → List Bytes
  | _, [] => []
  | seq, b :: rest =>
    encodeEntry seq tail guid b.flushedFileOffset b.lastFileOffset b.writes :: encodeBatches (seq+1) rest

omit [Crc32c] in
/-- The entries those batches must come back as, the first at `pos`. -/
def batchEntries : Nat → UInt64 → List Batch → List LogEntry
  | _, _, [] => []
  | pos, seq, b :: rest =>
    encodedEntry pos seq tail guid b.flushedFileOffset b.lastFileOffset b.writes ::
      batchEntries (wrap len (pos + encodedLength b.writes)) (seq+1) rest

end batches

section lemmas
variable [Crc32c] {log : Bytes} {len pos : Nat} {tail : UInt32} {guid : Guid} {seq : UInt64} {batches : List Batch}

omit [Crc32c] in
private theorem length_le_encodeWrites (base i : Nat) (writes : List PendingWrite) (buf : Bytes) :
    buf.length ≤ (encodeWrites seq base i writes buf).length := by
  induction writes generalizing i buf with
  | nil => exact le_rfl
  | cons w writes ih =>
    refine le_trans ?_ (ih (i+1) (encodeWrite seq base i buf w))
    unfold encodeWrite
    iterate 9 refine le_trans ?_ (length_le_splice _ _ _)
    exact le_rfl

private theorem encodedLength_le {q : UInt64} {t : UInt32} {g : Guid} (flushed last : UInt64)
    (writes : List PendingWrite) :
    encodedLength writes ≤ (encodeEntry q t g flushed last writes).length := by
  rw [encodeEntry]
  refine le_trans ?_ (length_le_splice _ _ _)
  refine le_trans ?_ (length_le_encodeWrites _ _ _ _)
  unfold encodeEntryHeader
  iterate 8 refine le_trans ?_ (length_le_splice _ _ _)
  rw [length_zeros]

/-- Every batch is short enough to be encoded, since together they fit the region. -/
private theorem encodeBatches_lt {q : UInt64} (hlen : len < 2^32)
    (hfit : (encodeBatches tail guid q batches).flatten.length ≤ len) :
    ∀ b ∈ batches, encodedLength b.writes < 2^32 := by
  induction batches generalizing q with
  | nil => simp
  | cons b rest ih =>
    rw [encodeBatches,List.flatten_cons,List.length_append] at hfit
    have hb := encodedLength_le (q := q) (t := tail) (g := guid) b.flushedFileOffset b.lastFileOffset b.writes
    intro a ha
    rcases List.mem_cons.mp ha with rfl | ha
    · omega
    · exact ih (q := q + 1) (by omega) a ha

private theorem length_encodeBatches {n : Nat} {p : Nat} {q : UInt64} {t : UInt32} {g : Guid}
    (hb : ∀ b ∈ batches, encodedLength b.writes < 2^32) :
    (encodeBatches t g q batches).flatten.length = totalLength (batchEntries n t g p q batches) := by
  induction batches generalizing q p with
  | nil => rfl
  | cons b rest ih =>
    have hlen := (encodeEntry_isEncoded (q := q) (t := t) (g := g) (f := b.flushedFileOffset)
      (l := b.lastFileOffset) (hb b (by simp))).length
    rw [encodeBatches,batchEntries,List.flatten_cons,List.length_append,hlen,totalLength_cons,
      ih fun a ha => hb a (List.mem_cons_of_mem _ ha)]
    rfl

omit [Crc32c] in
private theorem totalLength_batchEntries {n p : Nat} {q : UInt64} {t : UInt32} {g : Guid} :
    totalLength (batchEntries n t g p q batches) = (batches.map fun b => encodedLength b.writes).sum := by
  induction batches generalizing q p with
  | nil => rfl
  | cons b rest ih =>
    rw [batchEntries,totalLength_cons,ih]
    rfl

omit [Crc32c] in
private theorem tiles_batchEntries : Tiles len pos (batchEntries len tail guid pos seq batches) := by
  induction batches generalizing seq pos with
  | nil => trivial
  | cons b rest ih => exact ⟨rfl,ih⟩

/-- Each entry of a laid region is there whole, read round the end. -/
private theorem encoded_of_parts (hb : ∀ b ∈ batches, encodedLength b.writes < 2^32)
    (h : List.Forall₂ (fun off src => circSlice log off src.length = src)
      (circOffsets len pos (encodeBatches tail guid seq batches)) (encodeBatches tail guid seq batches)) :
    ∀ e ∈ batchEntries len tail guid pos seq batches, ∃ s b, b ∈ batches ∧
    e.header.entryLength = encodedLength b.writes ∧
      e = encodedEntry e.logOffsetInRegion s tail guid b.flushedFileOffset b.lastFileOffset b.writes ∧
      IsEncoded s tail guid b.flushedFileOffset b.lastFileOffset b.writes
        (circSlice log e.logOffsetInRegion (encodedLength b.writes)) := by
  induction batches generalizing seq pos with
  | nil => intro e he; cases he
  | cons b rest ih =>
    have henc := encodeEntry_isEncoded (q := seq) (t := tail) (g := guid) (f := b.flushedFileOffset)
      (l := b.lastFileOffset) (hb b (by simp))
    rw [encodeBatches,circOffsets] at h
    obtain ⟨hfirst,hrest⟩ := List.forall₂_cons.mp h
    rw [henc.length] at hfirst hrest
    intro e he
    rcases List.mem_cons.mp he with rfl | he
    · exact ⟨seq,b,by simp,rfl,rfl,hfirst ▸ henc⟩
    · obtain ⟨s,a,ha,hea⟩ := ih (fun a ha => hb a (List.mem_cons_of_mem _ ha)) hrest e he
      exact ⟨s,a,List.mem_cons_of_mem _ ha,hea⟩

omit [Crc32c] in
private theorem consecutive_batchEntries {n : Nat} {t : UInt32} {g : Guid} {p : Nat}
    (h : seq.toNat + batches.length ≤ 2^64) :
    (batchEntries n t g p seq batches).IsChain
      fun a b => b.header.sequenceNumber = a.header.sequenceNumber + 1 := by
  induction batches generalizing seq p with
  | nil => exact List.IsChain.nil
  | cons b rest ih =>
    rw [List.length_cons] at h
    cases rest with
    | nil => exact List.IsChain.singleton _
    | cons c rest =>
      rw [List.length_cons] at h
      have hnext : (seq+1).toNat = seq.toNat + 1 := by
        rw [UInt64.toNat_add]
        exact Nat.mod_eq_of_lt (by simp; omega)
      refine List.isChain_cons.mpr ⟨fun x hx => ?_,ih (by rw [hnext,List.length_cons]; omega)⟩
      obtain rfl : encodedEntry _ (seq+1) t g c.flushedFileOffset c.lastFileOffset c.writes = x := by
        simpa [batchEntries] using hx
      exact hnext

omit [Crc32c] in
theorem tail_batchEntries : ∀ e ∈ batchEntries len tail guid pos seq batches, e.header.tail = tail.toNat := by
  induction batches generalizing seq pos with
  | nil => intro e he; cases he
  | cons b rest ih =>
    intro e he
    rcases List.mem_cons.mp he with rfl | he
    · rfl
    · exact ih e he

omit [Crc32c] in
private theorem length_batchEntries {n : Nat} {t : UInt32} {g : Guid} {p : Nat} {q : UInt64} :
    (batchEntries n t g p q batches).length = batches.length := by
  induction batches generalizing q p with
  | nil => rfl
  | cons b rest ih => rw [batchEntries,List.length_cons,List.length_cons,ih]

omit [Crc32c] in
private theorem slice_zeros_unsigned {n a : Nat} (h : a + 4 ≤ n) : slice (zeros n) a 4 ≠ logEntrySignature := by
  rw [slice_zeros h]
  simp [zeros,logEntrySignature]

/-- A region laid from zeros holds the batches' entries and no other signed slot. -/
theorem slots_of_lay {q : UInt64} {g : Guid} {x : List Batch} {start : UInt32} (hlen : len < 2^32)
    (hm : len % logSectorSize = 0) (hs : start.toNat < len) (hsm : start.toNat % logSectorSize = 0)
    (hfit : (encodeBatches start g q x).flatten.length ≤ len) :
    Slots (circLay (zeros len) start.toNat (encodeBatches start g q x)) g
      (batchEntries len start g start.toNat q x) := by
  have hsize : logSectorSize = 4096 := rfl
  have hb := encodeBatches_lt hlen hfit
  have htotal := length_encodeBatches (n := len) (p := start.toNat) (q := q) (t := start) (g := g) hb
  have hlog := length_circLay (b := zeros len) (x := encodeBatches start g q x) (by simpa using hs)
    (by simpa using hfit)
  rw [length_zeros] at hlog
  have hparts := circLay_parts (b := zeros len) (x := encodeBatches start g q x) (by simpa using hs)
    (by simpa using hfit)
  rw [length_zeros] at hparts
  have hframe : ∀ a, a < len → totalLength (batchEntries len start g start.toNat q x) ≤ around len start.toNat a →
      around len start.toNat a + 4 ≤ len →
      circSlice (circLay (zeros len) start.toNat (encodeBatches start g q x)) a 4 = circSlice (zeros len) a 4 := by
    intro a ha ht h4
    exact circSlice_circLay_of_disjoint (by simpa using hs) (by simpa using ha) (by rw [length_zeros,htotal]; exact ht)
      (by rwa [length_zeros])
  generalize circLay (zeros len) start.toNat (encodeBatches start g q x) = log at *
  have hencoded := encoded_of_parts hb hparts
  have htiles : Tiles len start.toNat (batchEntries len start g start.toNat q x) := tiles_batchEntries
  have hl : totalLength (batchEntries len start g start.toNat q x) ≤ len := htotal ▸ hfit
  have hcoord := (htiles.coordinates hs hs (by rw [around_self]; omega)).1
  have haligned := htiles.aligned hm hsm (fun e he => by
    obtain ⟨s,b,hbm,hel,-⟩ := hencoded e he
    exact hel ▸ encodedLength_mod (hb b hbm))
  refine ⟨haligned,fun e he => ?_,htiles.apart hs hl,fun pos hp hpm hno => ?_⟩
  · have hal := haligned e he
    obtain ⟨hin,-,hend⟩ := hcoord e he
    obtain ⟨s,b,hbm,hel,hee,henc⟩ := hencoded e he
    have hroom : e.logOffsetInRegion + logSectorSize ≤ log.length := by
      rw [hlog]
      simp only [hsize] at hm hal ⊢
      omega
    have hd := declaredLength_encoded hroom (by omega) (hb b hbm) henc
    have hr := readEntry_encoded hroom (by omega) (hb b hbm) henc
    rw [← hee] at hr
    simp only [hel]
    exact ⟨hd,hr⟩
  · rw [hlog] at hp
    simp only [hsize] at hm hsm hpm
    have h4 : pos + 4 ≤ len := by omega
    have hpos := around_lt hs hp
    have hposm : around len start.toNat pos % 4096 = 0 := by
      unfold around
      split_ifs <;> omega
    rcases htiles.cover hs hs (by rw [around_self]; omega) (x := around len start.toNat pos)
      (by rw [around_self]; omega) with
      ⟨e,he,hlo,hhi⟩ | hpast
    · -- inside an entry: its own sectors are not signed past the first
      have hal := haligned e he
      obtain ⟨hin,-,hend⟩ := hcoord e he
      have hne := hno e he
      obtain ⟨s,b,hbm,hel,-,henc⟩ := hencoded e he
      simp only [hsize] at hal
      have hem : around len start.toNat e.logOffsetInRegion % 4096 = 0 := by
        unfold around
        split_ifs <;> omega
      have hk : around len start.toNat e.logOffsetInRegion ≠ around len start.toNat pos := by
        unfold around
        split_ifs <;> omega
      have hwrap : wrap log.length (e.logOffsetInRegion +
          (around len start.toNat pos - around len start.toNat e.logOffsetInRegion)) = pos := by
        rw [hlog]
        unfold wrap around at *
        split_ifs at * <;> omega
      have hsector := henc.interior (hb b hbm)
        (k := around len start.toNat pos - around len start.toNat e.logOffsetInRegion) (by omega) (by omega) (by omega)
      have hlm := encodedLength_mod (hb b hbm)
      simp only [hsize] at hlm
      rwa [slice_circSlice_wrap (by omega) (by omega) (by rw [hwrap]; omega),hwrap] at hsector
    · have hz := hframe pos hp (by rw [around_self] at hpast; omega) (by omega)
      rw [circSlice_of_le (by omega),circSlice_of_le (by simpa using h4)] at hz
      rw [hz]
      exact slice_zeros_unsigned h4

omit [Crc32c] in
private theorem getElem?_batchEntries {n : Nat} {t : UInt32} {g : Guid} {p : Nat} {q : UInt64}
    (h : q.toNat + batches.length ≤ 2^64) {i : Nat} {b : Batch} (hb : batches[i]? = some b) :
    ∃ off s, s.toNat = q.toNat + i ∧ (batchEntries n t g p q batches)[i]? =
      some (encodedEntry off s t g b.flushedFileOffset b.lastFileOffset b.writes) := by
  induction batches generalizing q p i with
  | nil => simp at hb
  | cons a rest ih =>
    rw [List.length_cons] at h
    cases i with
    | zero =>
      obtain rfl : a = b := by simpa using hb
      exact ⟨p,q,rfl,rfl⟩
    | succ i =>
      have hi : i < rest.length := (List.getElem?_eq_some_iff.mp (by simpa using hb)).1
      have hnext : (q+1).toNat = q.toNat + 1 := by
        rw [UInt64.toNat_add]
        exact Nat.mod_eq_of_lt (by simp; omega)
      obtain ⟨off,s,hs,he⟩ := ih (q := q + 1) (p := wrap n (p + encodedLength a.writes)) (i := i)
        (by rw [hnext]; omega) (by simpa using hb)
      exact ⟨off,s,by rw [hs,hnext]; omega,he⟩

/-- The entries of a region laid from zeros, the first where every tail says, are its chain. -/
private theorem collect_encodeBatches (hlen : len < 2^32) (hm : len % logSectorSize = 0) {start : UInt32}
    (hs : start.toNat < len) (hsm : start.toNat % logSectorSize = 0) {g : Guid} (hg : isZeroGuid g = false) {q : UInt64}
    {x : List Batch} (hne : x ≠ []) (hseq : q.toNat + x.length ≤ 2^64)
    (hfit : (encodeBatches start g q x).flatten.length ≤ len) :
    collectReplayChain (circLay (zeros len) start.toNat (encodeBatches start g q x)) g =
    .ok (batchEntries len start g start.toNat q x) := by
  have hslots := slots_of_lay (q := q) (g := g) (x := x) hlen hm hs hsm hfit
  have hlog := length_circLay (b := zeros len) (x := encodeBatches start g q x) (by simpa using hs)
    (by simpa using hfit)
  rw [length_zeros] at hlog
  have htiles : Tiles len start.toNat (batchEntries len start g start.toNat q x) := tiles_batchEntries
  have hlinked : (batchEntries len start g start.toNat q x).IsChain (Follows len) := by
    have hsound := fun e he => hslots.sound (e := e) he
    have hconsecutive := consecutive_batchEntries (n := len) (p := start.toNat) (t := start) (g := g) hseq
    generalize circLay (zeros len) start.toNat (encodeBatches start g q x) = log at *
    subst hlog
    exact htiles.linked hsound hconsecutive
  obtain ⟨first,rest,hes⟩ : ∃ first rest, batchEntries len start g start.toNat q x = first :: rest := by
    refine List.exists_cons_of_ne_nil fun hnil => hne (List.length_eq_zero_iff.mp ?_)
    rw [← length_batchEntries (n := len) (t := start) (g := g) (p := start.toNat) (q := q),hnil]
    rfl
  rw [hes] at htiles
  have hlast := (batchEntries len start g start.toNat q x).getLast?_eq_some_getLast (by rw [hes]; simp)
  refine hslots.collect (by omega) hg (by rwa [hlog]) (show _ = some first by rw [hes]; rfl) hlast ?_
  rw [htiles.1]
  exact tail_batchEntries _ (List.getLast_mem _)

/-- One entry at the front of a zeroed region, its tail on itself, is the whole of its chain. -/
theorem collect_single {q : UInt64} {g : Guid} {f l : UInt64} {writes : List PendingWrite} (hlen : len < 2^32)
    (hm : len % logSectorSize = 0) (h0 : 0 < len) (hfit : encodedLength writes ≤ len) (hg : isZeroGuid g = false) :
    collectReplayChain (splice (zeros len) 0 (encodeEntry q 0 g f l writes)) g =
    .ok [encodedEntry 0 q 0 g f l writes] := by
  have hone : (encodeEntry q 0 g f l writes).length = encodedLength writes := (encodeEntry_isEncoded (by omega)).length
  have hroom : (encodeBatches 0 g q [⟨f,l,writes⟩]).flatten.length ≤ len := by
    rw [encodeBatches,encodeBatches,List.flatten_cons,List.flatten_nil,List.append_nil,hone]
    exact hfit
  have hlay : circLay (zeros len) 0 (encodeBatches 0 g q [⟨f,l,writes⟩]) =
      splice (zeros len) 0 (encodeEntry q 0 g f l writes) := by
    rw [encodeBatches,encodeBatches,circLay,circLay,circSplice_of_le (by rw [hone,length_zeros]; omega)]
  have hstart : (0 : UInt32).toNat < len := h0
  have hslots := slots_of_lay hlen hm hstart rfl hroom
  rw [show (0 : UInt32).toNat = 0 from rfl,hlay] at hslots
  have hlog : (splice (zeros len) 0 (encodeEntry q 0 g f l writes)).length = len := by
    rw [length_splice (by rw [hone,length_zeros]; omega),length_zeros]
  exact hslots.collect (by omega) hg (List.isChain_singleton _) rfl rfl rfl

/-- No slot of a zeroed region is signed, so a scan of it reads no entry and spends nothing. -/
private theorem discoverFrom_zeros {n : Nat} {g : Guid} (pos : Nat) (b : ChecksumBudget) :
    discoverFrom (zeros n) g pos b = .ok ([],b) := by
  induction hk : n - pos using Nat.strong_induction_on generalizing pos with
  | _ k ih =>
    have hsize : logSectorSize = 4096 := rfl
    rw [discoverFrom,length_zeros]
    by_cases hp : pos + logSectorSize ≤ n
    · rw [if_pos hp,parseLogEntry,declaredLength_of_unsigned (slice_zeros_unsigned (by omega))]
      exact ih (n - (pos + logSectorSize)) (by omega) _ rfl
    · rw [if_neg hp]

theorem collectReplayChain_zeros (n : Nat) (g : Guid) : collectReplayChain (zeros n) g = .ok [] := by
  unfold collectReplayChain discover
  dsimp only
  rw [discoverFrom_zeros]
  by_cases hg : isZeroGuid g = true
  · rw [if_pos hg]
    rfl
  · rw [if_neg hg]
    rfl

end lemmas

/-- Three entries; laid from the last sector of a region of five on, they fill it, and its end cuts the first of them in two. -/
def threeBatches : List Batch :=
  [⟨0,0,[⟨1048576,⟨zeros 4096,length_zeros 4096⟩⟩]⟩,⟨0,0,[⟨2097152,⟨zeros 4096,length_zeros 4096⟩⟩]⟩,⟨0,0,[]⟩]

section chains
variable [Crc32c]

private theorem length_threeBatches {g : Guid} : (encodeBatches 16384 g 7 threeBatches).flatten.length = 20480 := by
  have hshort : ∀ b ∈ threeBatches, encodedLength b.writes < 2^32 := by decide
  rw [length_encodeBatches (n := 20480) (p := 16384) hshort,totalLength_batchEntries]
  decide

def threeBatchRegion (g : Guid) : Bytes := circLay (zeros 20480) 16384 (encodeBatches 16384 g 7 threeBatches)

def threeEntries (g : Guid) : List LogEntry := batchEntries 20480 16384 g 16384 7 threeBatches

theorem length_threeBatchRegion {g : Guid} : (threeBatchRegion g).length = 20480 :=
  (length_circLay (by simp) (by simpa using length_threeBatches.le)).trans (length_zeros 20480)

theorem slots_threeBatchRegion {g : Guid} : Slots (threeBatchRegion g) g (threeEntries g) := by
  have hslots : Slots (circLay (zeros 20480) (16384 : UInt32).toNat (encodeBatches 16384 g 7 threeBatches)) g
      (batchEntries 20480 16384 g (16384 : UInt32).toNat 7 threeBatches) :=
    slots_of_lay (by decide) (by decide) (by decide) (by decide) length_threeBatches.le
  exact hslots

theorem collect_threeBatchRegion {g : Guid} (hg : isZeroGuid g = false) :
    collectReplayChain (threeBatchRegion g) g = .ok (threeEntries g) := by
  have hchain : collectReplayChain (circLay (zeros 20480) (16384 : UInt32).toNat
    (encodeBatches 16384 g 7 threeBatches)) g =
      .ok (batchEntries 20480 16384 g (16384 : UInt32).toNat 7 threeBatches) :=
    collect_encodeBatches (by decide) (by decide) (by decide) (by decide) hg (List.cons_ne_nil _ _)
      (by decide) length_threeBatches.le
  exact hchain

omit [Crc32c] in
theorem threeEntries_at {g : Guid} :
    ((threeEntries g).map fun e => (e.logOffsetInRegion,e.header.entryLength,e.header.sequenceNumber)) =
    [(16384,8192,7),(4096,8192,8),(12288,4096,9)] := rfl

/-- The chain a region yields, exactly: what `Ok` returns, and when the region is
refused as unassembled rather than for the bytes it would take to checksum. -/
theorem collectReplayChain_exact (log : Bytes) (guid : Guid) (hg : isZeroGuid guid = false) :
    ∃ found checked exhausted, discover log guid = .ok (found,checked,exhausted) ∧
      (∀ chain, collectReplayChain log guid = .ok chain → IsReplayChain log guid found chain) ∧
      (collectReplayChain log guid ≠ .err budgetExhausted →
        ((∃ what, collectReplayChain log guid = .err (.logUnassembled what)) ↔
          found ≠ [] ∧ ∃ head, IsHead found head ∧ ∀ e ∈ found, e.logOffsetInRegion ≠ head.header.tail)) := by
  obtain ⟨found,checked,exhausted,h,hd⟩ := discover_ok log guid
  refine ⟨found,checked,exhausted,h,?_,?_⟩
  · intro chain hc
    rw [collectReplayChain_eq hg h] at hc
    split_ifs at hc
    exact selectChain_eq_ok hd hc
  · intro hb
    rw [collectReplayChain_eq hg h] at hb ⊢
    split_ifs at hb ⊢
    · exact absurd rfl hb
    · exact selectChain_unassembled hd

end chains

/-- The chain goes round the end of the region, and stops at the third entry. -/
theorem collectReplayChain_exact_of_three_batches :
    letI := castagnoli
    let guid : Guid := ⟨1 :: zeros 15,by simp⟩
    ∃ found checked exhausted chain, discover (threeBatchRegion guid) guid = .ok (found,checked,exhausted) ∧
      collectReplayChain (threeBatchRegion guid) guid = .ok chain ∧
      (chain.map fun e => (e.logOffsetInRegion,e.header.entryLength,e.header.sequenceNumber)) =
        [(16384,8192,7),(4096,8192,8),(12288,4096,9)] ∧
      IsReplayChain (threeBatchRegion guid) guid found chain ∧
      ¬ (found ≠ [] ∧ ∃ head, IsHead found head ∧ ∀ e ∈ found, e.logOffsetInRegion ≠ head.header.tail) := by
  let := castagnoli
  intro guid
  have hg : isZeroGuid guid = false := by simp [guid,isZeroGuid]
  have hchain := collect_threeBatchRegion hg
  obtain ⟨found,checked,exhausted,hfound,hexact,hrefused⟩ := collectReplayChain_exact (threeBatchRegion guid) guid hg
  refine ⟨found,checked,exhausted,_,hfound,hchain,threeEntries_at,hexact _ hchain,?_⟩
  rw [← hrefused (by rw [hchain]; simp)]
  rintro ⟨what,hwhat⟩
  cases hchain.symm.trans hwhat

/-- Encoder and replayer agree on whole chains: batches laid round a zeroed region come
back one entry each, in order, with their header fields and their sectors. -/
theorem collectReplayChain_encodeBatches [Crc32c] (len : Nat) (hlen : len < 2^32) (hm : len % logSectorSize = 0)
    (start : UInt32) (hs : start.toNat < len) (hsm : start.toNat % logSectorSize = 0) (guid : Guid)
    (hg : isZeroGuid guid = false) (seq : UInt64) (batches : List Batch) (hne : batches ≠ [])
    (hseq : seq.toNat + batches.length ≤ 2^64) (hfit : (encodeBatches start guid seq batches).flatten.length ≤ len) :
    ∃ chain : List LogEntry, collectReplayChain
    (circLay (zeros len) start.toNat (encodeBatches start guid seq batches)) guid = .ok chain ∧
      chain.length = batches.length ∧ ∀ (i : Nat) (b : Batch), batches[i]? = some b → ∃ e : LogEntry,
      chain[i]? = some e ∧
        e.header = {
          entryLength := encodedLength b.writes
          tail := start.toNat
          sequenceNumber := seq.toNat + i
          descriptorCount := b.writes.length
          logGuid := guid
          flushedFileOffset := b.flushedFileOffset.toNat
          lastFileOffset := b.lastFileOffset.toNat } ∧
        e.descriptors.map Descriptor.replays = b.writes.map fun w => some (w.fileOffset.toNat,w.sector) := by
  refine ⟨_,collect_encodeBatches hlen hm hs hsm hg hne hseq hfit,length_batchEntries,fun i b hb => ?_⟩
  obtain ⟨off,s,hsi,he⟩ := getElem?_batchEntries (n := len) (t := start) (g := guid) (p := start.toNat) hseq hb
  refine ⟨_,he,?_,?_⟩
  · rw [← hsi]
    rfl
  · simp [encodedEntry,PendingWrite.descriptor,Descriptor.replays]

/-- The three, round the end of the region. -/
theorem collectReplayChain_encodeBatches_wrapped :
    letI := castagnoli
    let guid : Guid := ⟨1 :: zeros 15,by simp⟩
    (encodeBatches 16384 guid 7 threeBatches).flatten.length ≤ 20480 ∧
    ∃ chain : List LogEntry, collectReplayChain (circLay (zeros 20480) 16384 (encodeBatches 16384 guid 7 threeBatches))
      guid = .ok chain ∧
      chain.length = 3 ∧ ∀ (i : Nat) (b : Batch), threeBatches[i]? = some b → ∃ e : LogEntry, chain[i]? = some e ∧
        e.header = {
          entryLength := encodedLength b.writes
          tail := 16384
          sequenceNumber := 7 + i
          descriptorCount := b.writes.length
          logGuid := guid
          flushedFileOffset := b.flushedFileOffset.toNat
          lastFileOffset := b.lastFileOffset.toNat } ∧
        e.descriptors.map Descriptor.replays = b.writes.map fun w => some (w.fileOffset.toNat,w.sector) := by
  let := castagnoli
  exact ⟨length_threeBatches.le,collectReplayChain_encodeBatches 20480 (by decide) (by decide) 16384 (by decide) (by decide)
    ⟨1 :: zeros 15,by simp⟩ (by simp [isZeroGuid]) 7 threeBatches (List.cons_ne_nil _ _)
      (by decide) length_threeBatches.le⟩

end ImgVhdx
