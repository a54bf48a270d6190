import ImgVhdx.Reader.Reopen

/-! Everything an open looks at but the headers, the log and the entries of the BAT: that it is there, and what may
change around it. -/
namespace ImgVhdx
open Lib DevProg

section moved
variable {d d' e : Device} {n m : Nat} {header : Header} {slot : HeaderSlot} {regions : RegionTable}
  {p : DiskParameters}
  {writable : Bool} {r : VhdxReader} {s : ReaderState}

/-- What was read of the metadata is read again of the same bytes. -/
private theorem readMetadata_moved {x : RegionEntry} (h : (readMetadata n regions).on d = (.ok p,d'))
    (hx : regions.find Guids.metadata = some x) (hn : n ≤ m) (hm : m ≤ e.size)
    (hb : e.bytes x.fileOffset x.length = d.bytes x.fileOffset x.length) :
    d' = d ∧ (readMetadata m regions).on e = (.ok p,e) := by
  simp only [readMetadata,on,Prog.run_bind_eq_ok,Prog.run_lift_eq_ok] at h
  obtain ⟨x',_,⟨hx',rfl⟩,len,_,⟨hspan,rfl⟩,bytes,_,hread,t,_,⟨ht,rfl⟩,hp,rfl⟩ := h
  obtain rfl := Option.some.inj (hx.symm.trans (Outcome.okOr_eq_ok.mp hx'))
  obtain ⟨h64,hend,rfl⟩ := spanInsideTheFile_eq_ok.mp hspan
  obtain ⟨-,rfl,rfl⟩ := on_devRead_eq_ok.mp hread
  exact ⟨rfl,on_readMetadata hx h64 (hend.trans hn) hm (hb ▸ ht) hp⟩

/-- The last step depends on the device only by the BAT. -/
private theorem finishOpen_moved (h : (finishOpen n header slot regions p writable).on d = (.ok (r,s),d')) {k : Header}
    {t : HeaderSlot} {w : Bool} {bat : List BatEntry}
    (hbat : (readBat m regions r.virtualSize r.blockSize r.chunkRatio).on e = (.ok (r.batRegionOff,bat),e)) :
    (finishOpen m k t regions p w).on e = (.ok ({ r with writable := w },⟨m,k,t,bat⟩),e) := by
  unfold finishOpen at h ⊢
  split_ifs at h ⊢ with hpow hrange hsector hparent hmeta hratio <;> try cases (Prod.mk.inj h).1
  simp only [on,Prog.run_bind_eq_ok] at h
  obtain ⟨⟨off,old⟩,d1,hb,h⟩ := h
  obtain ⟨hr,rfl⟩ := Prod.mk.inj h
  obtain ⟨rfl,rfl⟩ := Prod.mk.inj (Outcome.ok.inj hr)
  exact Prog.run_bind_eq_ok.mpr ⟨_,_,hbat,rfl⟩

/-- The disk an open found is found again wherever the metadata is the same; the BAT is read as it is there. -/
private theorem loadDisk_moved {x : RegionEntry} (h : (loadDisk n header slot regions writable).on d = (.ok (r,s),d'))
    (hx : regions.find Guids.metadata = some x) (hn : n ≤ m) (hm : m ≤ e.size)
    (hb : e.bytes x.fileOffset x.length = d.bytes x.fileOffset x.length) (k : Header) (t : HeaderSlot) (w : Bool) :
    (loadDisk m k t regions w).on e =
      (.ok ({ r with writable := w },⟨m,k,t,decodeBat (e.bytes r.batRegionOff (s.bat.length * batEntrySize))⟩),e) := by
  obtain ⟨p,d1,hp,hf⟩ := Prog.run_bind_eq_ok.mp h
  obtain ⟨rfl,hmeta⟩ := readMetadata_moved hp hx hn hm hb
  obtain ⟨-,-,-,-,-,-,-,-,-,hbat⟩ := finishOpen_eq_ok hf
  obtain ⟨b,entries,hfind,hoff,h64,hend,hentries,-,hdecode,rfl⟩ := readBat_eq_ok hbat
  have hlen : s.bat.length = entries := by rw [hdecode,length_decodeBat Device.length_bytes]
  have hread := on_readBat hfind h64 (hend.trans hn) hentries
    (batRegionCoversTheDisk_eq_ok hentries r.chunkRatio_pos r.blockSize_pos).1 hm
  rw [← hoff,← hlen] at hread
  exact Prog.run_bind_eq_ok.mpr ⟨p,e,hmeta,finishOpen_moved hf hread⟩

end moved

section
variable [Crc32c] {r : VhdxReader} {l : Layout} {regions : RegionTable} {n : Nat} {d d' : Device}

/-- The file is no shorter, and its first megabyte, the header slots apart, and its metadata are as they were. -/
structure HousingKept (l : Layout) (d d' : Device) : Prop where
  size : d.size ≤ d'.size
  first : ∀ i < oneMib, (∀ x : HeaderSlot, i < x.offset ∨ x.offset + headerSize ≤ i) → d'.byte i = d.byte i
  metadata : d'.bytes l.metadata.start l.metadata.len = d.bytes l.metadata.start l.metadata.len

structure Housed (r : VhdxReader) (l : Layout) (regions : RegionTable) (n : Nat) (d : Device) : Prop where
  identifier : d.bytes 0 8 = fileIdentifierSignature
  table : regionsAt d d.size = .ok regions
  known : regions.unknownRequired = none
  metadata : ∃ x, regions.find Guids.metadata = some x ∧ x.span = l.metadata
  loads : ∀ k t writable, (loadDisk d.size k t regions writable).on d =
    (.ok ({ r with writable },⟨d.size,k,t,decodeBat (d.bytes r.batRegionOff (n * batEntrySize))⟩),d)

omit [Crc32c] in
theorem HousingKept.bytes (h : HousingKept l d d') {off len : Nat} (hlow : off + len ≤ oneMib)
    (hoff : ∀ x : HeaderSlot, off + len ≤ x.offset ∨ x.offset + headerSize ≤ off) :
    d'.bytes off len = d.bytes off len := by
  refine Device.bytes_congr fun i hlo hhi => h.first i (by omega) fun x => ?_
  have := hoff x
  omega

private theorem tableAt_kept (h : HousingKept l d d') (off : Nat) (hlow : off + regionTableSize ≤ oneMib)
    (hoff : regionTable1Offset ≤ off) (hin : off + regionTableSize ≤ d.size) :
    tableAt d' d'.size off = tableAt d d.size off := by
  have hb := h.bytes hlow fun x => .inr (x.before_tables.trans hoff)
  unfold tableAt
  rw [if_neg (Nat.not_lt.mpr hin),if_neg (Nat.not_lt.mpr (hin.trans h.size)),hb]

/-- The region table that is found is found again. -/
private theorem regionsAt_kept (h : HousingKept l d d') (ht : regionsAt d d.size = .ok regions) :
    regionsAt d' d'.size = .ok regions := by
  have hfirst : regionTable1Offset + regionTableSize ≤ d.size := by
    by_contra hlt
    have h1 : regionTable1Offset + regionTableSize ≤ regionTable2Offset + regionTableSize := by decide
    unfold regionsAt tableAt at ht
    rw [if_pos (by omega),if_pos (by omega)] at ht
    cases ht
  have h1 := tableAt_kept h regionTable1Offset (by decide) le_rfl hfirst
  unfold regionsAt at ht ⊢
  rw [h1]
  cases hone : tableAt d d.size regionTable1Offset with
  | some t =>
    rw [hone] at ht
    exact ht
  | none =>
    rw [hone] at ht
    have hsecond : regionTable2Offset + regionTableSize ≤ d.size := by
      by_contra hlt
      unfold tableAt at ht
      rw [if_pos (by omega)] at ht
      cases ht
    rw [tableAt_kept h regionTable2Offset (by decide) (by decide) hsecond]
    exact ht

theorem Housed.moved (h : Housed r l regions n d) (hk : HousingKept l d d') : Housed r l regions n d' where
  identifier := (hk.bytes (by decide) fun x => .inl (by cases x <;> decide)).trans h.identifier
  table := regionsAt_kept hk h.table
  known := h.known
  metadata := h.metadata
  loads k t writable := by
    obtain ⟨x,hx,hspan⟩ := h.metadata
    have hm := hk.metadata
    rw [← hspan] at hm
    have hmoved := loadDisk_moved (h.loads k t writable) hx hk.size le_rfl hm k t writable
    rw [length_decodeBat Device.length_bytes] at hmoved
    exact hmoved

end
end ImgVhdx
