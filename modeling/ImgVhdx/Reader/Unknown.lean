import ImgVhdx.Log.Batches
import ImgVhdx.Reader.Validated

/-! A file whose region table names a required region that is not known: it never opens, and what
replaying its log may do to it first. -/
namespace ImgVhdx
open Lib DevProg

section
variable [Crc32c] {d : Device} {header : Header} {slot : HeaderSlot} {chain : List LogEntry} {before : RegionTable}

private theorem on_settle_of_unknown {n : Nat} {b : Bool} (hn : n ≤ d.size) (h : regionsAt d n = .ok before)
    (hunknown : before.unknownRequired.isSome = true) : ∃ e, (settle header slot (n,b)).on d = (.err e,d) := by
  unfold settle
  simp only [on]
  rw [Prog.run_bind_of_ok ((on_pickRegionTable hn).trans (by rw [h])),Outcome.rejectIf_of _ hunknown]
  exact ⟨_,rfl⟩

omit [Crc32c] in
/-- Without room for the chain, or with a descriptor that does not fit, none of it lands. -/
private theorem on_applyChain_of_not
    (h : ¬ (checkDescriptors (allowedExtent d.size chain) (descriptorsOf chain) = .ok () ∧
      (d.growable = true ∨ allowedExtent d.size chain = d.size))) :
    ∃ e, (applyChain chain).on d = (.err e,d) := by
  unfold applyChain
  simp only [on]
  rw [Prog.run_bind_of_ok on_devSize]
  cases hc : checkDescriptors (allowedExtent d.size chain) (descriptorsOf chain) with
  | err e => exact ⟨e,rfl⟩
  | panic => exact absurd hc (checkDescriptors_total _)
  | ok u =>
    have hno : ¬ (d.growable = true ∨ allowedExtent d.size chain = d.size) := fun hr => h ⟨hc,hr⟩
    push Not at hno
    have hlt : allowedExtent d.size chain > d.size := Nat.lt_of_le_of_ne (le_allowedExtent _ _) (Ne.symm hno.2)
    rw [Prog.run_bind_of_ok (Prog.run_lift_of_ok rfl)]
    unfold makeRoom
    rw [Prog.bind_assoc,Prog.run_bind_of_ok on_devSize,if_pos hlt]
    have hset' : Device.handle (.setLen (allowedExtent d.size chain)) d = (.error .readOnly,d) := if_neg hno.1
    simp only [Prog.call_bind,Prog.run,hset']
    exact ⟨_,rfl⟩

/-- An open of the device would apply `chain` to it: it is pending under the header that is picked, every descriptor
fits, and there is room. -/
structure Applies (d : Device) (chain : List LogEntry) : Prop where
  found : ∃ header slot, FindsChain d header slot chain
  pending : chain ≠ []
  fits : checkDescriptors (allowedExtent d.size chain) (descriptorsOf chain) = .ok ()
  room : d.growable = true ∨ allowedExtent d.size chain = d.size

theorem Applies.unique {chain' : List LogEntry} (h : Applies d chain) (h' : Applies d chain') : chain = chain' := by
  obtain ⟨_,_,hf⟩ := h.found
  obtain ⟨_,_,hf'⟩ := h'.found
  exact (hf.unique hf').2.2

omit [Crc32c] in
/-- A part that only looks leaves the device, and returns a value or an error. -/
private theorem on_looks {α : Type} {p : DevProg α} (hs : Strict p) (hl : Looks p) (d : Device) :
    (∃ e, p.on d = (.err e,d)) ∨ ∃ a, p.on d = (.ok a,d) := by
  have hview : (p.on d).2 = d := (hl.view Device.faithful.looks d : id (p.run Device.handle d).2 = id d)
  have hpanic : (p.on d).1 ≠ .panic := hs.run_ne_panic (h := Device.handle) (fun op _ => DevOp.granted_or_refused op _) d
  rcases hr : p.on d with ⟨o,d'⟩
  rw [hr] at hview hpanic
  obtain rfl : d' = d := hview
  cases o with
  | ok a => exact .inr ⟨a,rfl⟩
  | err e => exact .inl ⟨e,rfl⟩
  | panic => exact absurd rfl hpanic

theorem on_findChain (h : validateLogRegion d.size header = .ok ()) :
    (findChain d.size header).on d = (pendingChain d header,d) := by
  unfold findChain pendingChain
  by_cases hlog : ¬ isZeroGuid header.logGuid ∧ header.logLength.toNat > 0 ∧ header.logOffset.toNat > 0
  · obtain ⟨-,-,-,h64,hend⟩ := validateLogRegion_eq_ok h
      (fun h0 => by rw [h0] at hlog; exact absurd hlog.2.1 (by decide))
    rw [if_pos hlog,if_pos hlog]
    simp only [on]
    rw [Prog.run_bind_of_ok (Prog.run_lift_of_ok (spanInsideTheFile_of_le h64 hend)),Prog.run_bind_of_ok
      (on_devRead hend)]
    rfl
  · rw [if_neg hlog,if_neg hlog]
    rfl

/-- Open refuses the file in the end; by then the chain was applied, if there is one to apply. -/
private theorem on_openInner_of_unknown (htable : regionsAt d d.size = .ok before)
    (hunknown : before.unknownRequired.isSome = true)
    (hoff : ∀ chain, Applies d chain → LandsOff chain ⟨regionTable1Offset,regionTableSize⟩ ∧
      LandsOff chain ⟨regionTable2Offset,regionTableSize⟩)
    (writable : Bool) {rc : Bool} (hw : rc = true → d.writable = true) :
    (∃ chain e, rc = true ∧ Applies d chain ∧ (openInner writable rc).on d = (.err e,d.replayed chain)) ∨
    (∃ e, (rc = true → ∀ chain, ¬ Applies d chain) ∧ (openInner writable rc).on d = (.err e,d)) := by
  rw [openInner_split]
  simp only [on]
  rcases on_looks strict_identify looks_identify d with ⟨e,he⟩ | ⟨⟨n,header,slot⟩,hx⟩
  · refine .inr ⟨e,fun _ chain ha => ?_,?_⟩
    · obtain ⟨_,_,⟨_,hident⟩,-⟩ := ha.found
      rw [on_identify hident] at he
      cases (Prod.mk.inj he).1
    · rw [Prog.run_bind,show Prog.run Device.handle identify d = _ from he]
  obtain ⟨-,rfl,hident⟩ := identify_eq_ok hx
  obtain ⟨before',hb⟩ := hident
  rw [Prog.run_bind_of_ok hx]
  have hfind := on_findChain hb.logRegion
  -- whatever would be applied is what is pending under this header
  have hsame : ∀ chain, Applies d chain → pendingChain d header = .ok chain := by
    intro chain ha
    obtain ⟨h',slot',hf⟩ := ha.found
    obtain ⟨⟨_,hi⟩,hp⟩ := hf
    obtain ⟨rfl,rfl⟩ := Prod.mk.inj (Outcome.ok.inj (hi.picked.symm.trans hb.picked))
    exact hp
  dsimp only
  cases hp : pendingChain d header with
  | panic =>
    unfold pendingChain at hp
    split_ifs at hp
    exact absurd hp collectReplayChain_total
  | err e =>
    rw [hp] at hfind
    refine .inr ⟨e,fun _ chain ha => ?_,?_⟩
    · rw [hsame chain ha] at hp
      cases hp
    · rw [Prog.run_bind,show Prog.run Device.handle (findChain d.size header) d = _ from hfind]
  | ok chain =>
    rw [hp] at hfind
    rw [Prog.run_bind_of_ok hfind]
    have hchain : ∀ c, Applies d c → c = chain := fun c ha => Outcome.ok.inj ((hsame c ha).symm.trans hp)
    by_cases hemp : chain.isEmpty = true
    · have hsettle : ∃ e, (settle header slot (d.size,false)).on d = (.err e,d) :=
        on_settle_of_unknown le_rfl htable hunknown
      obtain ⟨e,he⟩ := hsettle
      refine .inr ⟨e,fun _ c ha => ha.pending ((hchain c ha).trans (List.isEmpty_iff.mp hemp)),?_⟩
      rw [if_pos hemp,Prog.run_bind_of_ok (Prog.run_done _ _),openRest,Prog.run_bind,
        show Prog.run Device.handle (settle header slot (d.size,false)) d = _ from he]
    · rw [if_neg hemp]
      cases rc with
      | false =>
        rw [if_pos Bool.false_ne_true]
        exact .inr ⟨_,fun h => absurd h Bool.false_ne_true,rfl⟩
      | true =>
        rw [if_neg (not_not.mpr rfl),Prog.bind_assoc]
        by_cases hall : checkDescriptors (allowedExtent d.size chain) (descriptorsOf chain) = .ok () ∧
            (d.growable = true ∨ allowedExtent d.size chain = d.size)
        · have happ : Applies d chain :=
            ⟨⟨header,slot,⟨before',hb⟩,hp⟩,fun h => hemp (List.isEmpty_iff.mpr h),hall.1,hall.2⟩
          have hsize : replayedExtent d.size chain = (d.replayed chain).size :=
            (replayedExtent_eq hall.1).trans Device.size_replayed.symm
          have hsettle : ∃ e, (settle header slot ((d.replayed chain).size,true)).on (d.replayed chain) =
            (.err e,d.replayed chain) :=
            on_settle_of_unknown le_rfl (regionsAt_replayed htable (hoff chain happ).1 (hoff chain happ).2) hunknown
          obtain ⟨e,he⟩ := hsettle
          refine .inl ⟨chain,e,rfl,happ,?_⟩
          rw [Prog.run_bind_of_ok (on_applyChain (hw rfl) hall.1 hall.2),Prog.run_bind_of_ok (Prog.run_done _ _),hsize,
            openRest,Prog.run_bind,
            show Prog.run Device.handle (settle header slot ((d.replayed chain).size,true)) (d.replayed chain) = _ from he]
        · obtain ⟨e,he⟩ := on_applyChain_of_not hall
          refine .inr ⟨e,fun _ c ha => ?_,?_⟩
          · rw [hchain c ha] at ha
            exact hall ⟨ha.fits,ha.room⟩
          · rw [Prog.run_bind,show Prog.run Device.handle (applyChain chain) d = _ from he]

/-- Every open of such a file fails; it leaves the file alone just when there is no chain to apply, the device may not
be written, or the chain puts what is there already. -/
theorem unknown_required_untouched_iff (htable : regionsAt d d.size = .ok before)
    (hunknown : before.unknownRequired.isSome = true)
    (hoff : ∀ header slot chain, FindsChain d header slot chain → LandsOff chain ⟨regionTable1Offset,regionTableSize⟩ ∧
      LandsOff chain ⟨regionTable2Offset,regionTableSize⟩) :
    (∀ rc p, Opener d rc p → (rc = true → d.writable = true) → ∃ e, p.on d = (.err e,d)) ↔
      ∀ chain, d.writable = true → Applies d chain → d.replayed chain = d := by
  have hoff' : ∀ chain, Applies d chain → LandsOff chain ⟨regionTable1Offset,regionTableSize⟩ ∧
      LandsOff chain ⟨regionTable2Offset,regionTableSize⟩ := fun chain ha => by
    obtain ⟨header,slot,hf⟩ := ha.found
    exact hoff header slot chain hf
  constructor
  · intro hall chain hw ha
    obtain ⟨e,he⟩ := hall true _ (.inner true true) fun _ => hw
    rcases on_openInner_of_unknown htable hunknown hoff' true (show true = true → d.writable = true from fun _ => hw)
      with ⟨c,e',-,hc,hr⟩ | ⟨e',hno,-⟩
    · rw [ha.unique hc]
      exact (Prod.mk.inj (hr.symm.trans he)).2
    · exact absurd ha (hno rfl chain)
  · intro hsame rc p hp hw
    have hinner : ∀ writable rc, (rc = true → d.writable = true) → ∃ e, (openInner writable rc).on d = (.err e,d) := by
      intro writable rc hw
      rcases on_openInner_of_unknown htable hunknown hoff' writable hw with ⟨c,e,hrc,hc,hr⟩ | ⟨e,-,hr⟩
      · rw [hsame c (hw hrc) hc] at hr
        exact ⟨e,hr⟩
      · exact ⟨e,hr⟩
    cases hp with
    | inner writable => exact hinner writable rc hw
    | onDevice => exact hinner false _ hw
    | rwOnDevice =>
      unfold openRwOnDevice
      by_cases hdw : d.writable = true
      · rw [if_neg (not_not.mpr hdw)]
        exact hinner true true fun _ => hdw
      · rw [if_pos hdw]
        exact ⟨_,rfl⟩

end
section table
variable (crc : Bytes) (es : List RegionEntry)

def encodeRegion (e : RegionEntry) :
    Bytes := e.guid.1 ++ toLE 8 e.fileOffset ++ toLE 4 e.length ++ toLE 4 (if e.required then 1 else 0)

def regionsParts : List Bytes :=
  [regionTableSignature,crc,toLE 4 es.length,zeros 4] ++ es.map encodeRegion ++
    [zeros (regionTableSize - 16 - 32 * es.length)]

def encodeRegions [Crc32c] : Bytes :=
  let buf := (regionsParts (zeros 4) es).flatten
  splice buf 4 (toLE 4 (RegionTable.crc buf))

variable {crc es}

@[simp] theorem length_encodeRegion {e : RegionEntry} : (encodeRegion e).length = 32 := by
  have := e.guid.2
  simp only [encodeRegion,List.length_append,length_toLE]
  omega

private theorem length_entries : (es.map encodeRegion).flatten.length = 32 * es.length := by
  induction es with
  | nil => rfl
  | cons e es ih =>
    rw [List.map_cons,List.flatten_cons,List.length_append,ih,length_encodeRegion,List.length_cons]
    omega

private theorem regionsParts_eq : (regionsParts crc es).flatten =
    regionTableSignature ++ (crc ++ (toLE 4 es.length ++ (zeros 4 ++ ((es.map encodeRegion).flatten ++
      zeros (regionTableSize - 16 - 32 * es.length))))) := by
  simp [regionsParts]

private theorem length_regionsParts (hc : crc.length = 4) (hn : es.length ≤ maxRegionEntries) :
    (regionsParts crc es).flatten.length = regionTableSize := by
  have hn' : es.length ≤ 2047 := hn
  have hsize : regionTableSize = 65536 := rfl
  rw [regionsParts_eq]
  simp only [List.length_append,length_entries,length_toLE,length_zeros,hc,regionTableSignature,List.length_cons,
    List.length_nil]
  omega

private theorem splice_regionsParts (hc : crc.length = 4) {src : Bytes} (hs : src.length = 4) :
    splice (regionsParts crc es).flatten 4 src = (regionsParts src es).flatten := by
  rw [regionsParts_eq,regionsParts_eq,← List.append_assoc,splice_middle (show 4 = regionTableSignature.length from rfl)
    (by omega),
    List.append_assoc]

private theorem encodeRegions_eq {l : List RegionEntry} [Crc32c] (hn : l.length ≤ maxRegionEntries) :
    ∃ crc, crc < 256^4 ∧
    encodeRegions l = (regionsParts (toLE 4 crc) l).flatten ∧ RegionTable.crc (encodeRegions l) = crc := by
  have h : encodeRegions l = (regionsParts (toLE 4 (RegionTable.crc (regionsParts (zeros 4) l).flatten)) l).flatten :=
    splice_regionsParts (by simp) (by simp)
  refine ⟨_,crc32c_lt _,h,?_⟩
  rw [h]
  unfold RegionTable.crc
  rw [slice_eq_self (length_regionsParts (by simp) hn),slice_eq_self (length_regionsParts (by simp) hn),
    splice_regionsParts (by simp) (by simp),splice_regionsParts (by simp) (by simp)]

private theorem length_encodeRegions [Crc32c] (hn : es.length ≤ maxRegionEntries) :
    (encodeRegions es).length = regionTableSize := by
  obtain ⟨crc,-,h,-⟩ := encodeRegions_eq hn
  rw [h,length_regionsParts (by simp) hn]

private theorem slice_entry (hc : crc.length = 4) {i : Nat} {e : RegionEntry} (he : es[i]? = some e) :
    slice (regionsParts crc es).flatten (16 + i * 32) 32 = encodeRegion e := by
  have hi : i < es.length := (List.getElem?_eq_some_iff.mp he).1
  refine slice_flatten (i := 4 + i) ?_ ?_ length_encodeRegion.symm
  · rw [regionsParts,List.append_assoc,List.getElem?_append_right (by simp),List.getElem?_append_left
      (by simpa using hi)]
    simp [he]
  · rw [regionsParts,List.append_assoc,List.take_append,List.take_of_length_le (by simp),show 4 +
      i - List.length [_,_,_,_] = i from by simp,
      List.take_append_of_le_length (by simpa using hi.le),List.flatten_append,List.length_append,← List.map_take,
        length_entries,
      List.length_take_of_le hi.le]
    simp [regionTableSignature,hc]
    omega

def RegionEntry.Fits (e : RegionEntry) : Prop := e.fileOffset < 2^64 ∧ e.length < 2^32

private theorem entryAt_written (hc : crc.length = 4) {i : Nat} {e : RegionEntry} (he : es[i]? = some e) (hf : e.Fits) :
    RegionTable.entryAt (regionsParts crc es).flatten i = e := by
  have hg := e.guid.2
  have field : ∀ k n, k + n ≤ 32 → slice (regionsParts crc es).flatten (16 + i * 32 + k) n =
      slice (encodeRegion e) k n := by
    intro k n hk
    rw [← slice_entry hc he,slice_slice hk]
  have h0 : slice (encodeRegion e) 0 16 = e.guid.1 := by
    rw [encodeRegion,List.append_assoc,List.append_assoc,slice_append_left (by omega),slice_eq_self hg]
  have h1 : slice (encodeRegion e) 16 8 = toLE 8 e.fileOffset := by
    rw [encodeRegion,List.append_assoc]
    exact slice_middle hg.symm (length_toLE _ _).symm
  have h2 : slice (encodeRegion e) 24 4 = toLE 4 e.length :=
    slice_middle (by rw [List.length_append,hg,length_toLE]) (length_toLE _ _).symm
  have h3 : slice (encodeRegion e) 28 4 = toLE 4 (if e.required then 1 else 0) := by
    have hlen : (e.guid.1 ++ toLE 8 e.fileOffset ++ toLE 4 e.length).length = 28 :=
      by simp only [List.length_append,length_toLE,hg]
    rw [encodeRegion,slice_append_right hlen.le,hlen,slice_eq_self (length_toLE _ _)]
  have hguid : guidAt (regionsParts crc es).flatten (16 + i * 32) = e.guid :=
    guidAt_of_slice ((field 0 16 (by omega)).trans h0)
  rw [RegionTable.entryAt,hguid,field 16 8 (by omega),field 24 4 (by omega),
    field 28 4 (by omega),h1,h2,h3,ofLE_toLE hf.1,ofLE_toLE hf.2]
  rcases e with ⟨g,o,l,_ | _⟩
  · rw [if_neg Bool.false_ne_true,ofLE_toLE (by decide)]
    rfl
  · rw [if_pos rfl,ofLE_toLE (by decide)]
    rfl

private theorem parse_encodeRegions [Crc32c] (hn : es.length ≤ maxRegionEntries) (hf : ∀ e ∈ es, e.Fits) :
    RegionTable.parse (encodeRegions es) = .ok ⟨es⟩ := by
  obtain ⟨crc,hcrc,h,hc⟩ := encodeRegions_eq hn
  have h4 : (toLE 4 crc).length = 4 := by simp
  have hn' : es.length ≤ 2047 := hn
  have hsig : slice (encodeRegions es) 0 4 = regionTableSignature := by
    rw [h,regionsParts_eq,slice_append_left (by decide)]
    rfl
  have hfield : slice (encodeRegions es) 4 4 = toLE 4 crc := by
    rw [h,regionsParts_eq,← List.append_assoc]
    exact slice_middle rfl (length_toLE _ _).symm
  have hcount : slice (encodeRegions es) 8 4 = toLE 4 es.length := by
    rw [h,regionsParts_eq,← List.append_assoc,← List.append_assoc]
    exact slice_middle (by rw [List.length_append,h4]; rfl) (length_toLE _ _).symm
  rw [RegionTable.parse_of_le (length_encodeRegions hn).ge,hsig,hfield,hcount,hc,ofLE_toLE hcrc,ofLE_toLE (by omega),
    if_neg (by simp),if_neg (by simp),if_neg (by omega)]
  refine congrArg (fun l => Outcome.ok (RegionTable.mk l)) (List.ext_getElem? fun i => ?_)
  rw [List.getElem?_map]
  by_cases hi : i < es.length
  · have he : es[i]? = some es[i] := List.getElem?_eq_getElem hi
    rw [List.getElem?_range' hi,he,h]
    simp only [Option.map_some]
    rw [show 0 + 1 * i = i by omega,entryAt_written h4 he (hf _ (List.getElem_mem hi))]
  · rw [List.getElem?_eq_none (by simpa using hi),List.getElem?_eq_none (by simpa using hi)]
    rfl

end table

section dirty
variable [Crc32c]

def withUnknown : List RegionEntry :=
  (oneLogged 5).regions.entries ++ [⟨⟨2 :: zeros 15,by simp⟩,3 * oneMib + 65536,65536,true⟩]

private theorem parse_withUnknown : RegionTable.parse (encodeRegions withUnknown) = .ok ⟨withUnknown⟩ := by
  refine parse_encodeRegions (by decide) ?_
  simp only [withUnknown,Build.regions,writtenRegions,List.cons_append,List.nil_append,List.mem_cons,List.not_mem_nil,or_false]
  rintro e (rfl | rfl | rfl)
  · exact show 3145728 < 2^64 ∧ 8 < 2^32 by decide
  · exact show 2097152 < 2^64 ∧ metadataRegionSize < 2^32 by decide
  · exact show 3 * oneMib + 65536 < 2^64 ∧ 65536 < 2^32 by decide

def unknownDirty (w : PendingWrite) (last : UInt64) :
    Device := (dirtied w last).device.put regionTable1Offset (encodeRegions withUnknown)

/-- Another table in the first place, and everything else that is looked at ahead of the log stays. -/
private theorem Identified.put_table {header : Header} {slot : HeaderSlot} {before t : RegionTable} {b : Bytes}
    (h : Identified d header slot before) (hb : b.length = regionTableSize)
    (hroom : regionTable1Offset + regionTableSize ≤ d.size) (hp : RegionTable.parse b = .ok t)
    (hclear : logRegionClearOfDeclaredRegions t header = .ok ()) :
    Identified (d.put regionTable1Offset b) header slot t := by
  have hheader : ∀ x, headerAt (d.put regionTable1Offset b) d.size x = headerAt d d.size x := fun x =>
    headerAt_congr (Device.bytes_put_of_disjoint
      (.inl (show x.offset + headerSize ≤ regionTable1Offset by cases x <;> decide)))
      ((show x.offset + headerSize ≤ regionTable1Offset + regionTableSize by cases x <;> decide).trans hroom)
      ((show x.offset + headerSize ≤ regionTable1Offset + regionTableSize by cases x <;> decide).trans hroom)
  have hbytes : (d.put regionTable1Offset b).bytes regionTable1Offset regionTableSize = b := by
    have := Device.bytes_put_same (d := d) (o := regionTable1Offset) (b := b) (by rw [hb]; exact hroom)
    rwa [hb] at this
  have ht : tableAt (d.put regionTable1Offset b) d.size regionTable1Offset = some t := by
    rw [tableAt,if_neg (by omega),hbytes,hp]
    rfl
  exact ⟨h.large,(Device.bytes_put_of_disjoint (.inl (show 0 + 8 ≤ regionTable1Offset by decide))).trans h.identifier,
    by rw [Device.size_put,hheader,hheader]; exact h.picked,h.logVersion,h.logRegion,by simp [regionsAt,ht],hclear⟩

private theorem size_unknownDirty :
    (unknownDirty w last).size = 4194304 := Device.size_put.trans (Build.size_device (b := dirtied w last))

private theorem unknownDirty_identified :
    Identified (unknownDirty w last) (dirtied w last).header .one ⟨withUnknown⟩ := by
  refine dirtied_valid.identified.put_table (length_encodeRegions (by decide)) ?_ parse_withUnknown ?_
  · rw [Build.size_device]
    exact show regionTable1Offset + regionTableSize ≤ 4194304 by decide
  · rw [logRegionClearOfDeclaredRegions,
      if_neg (show (dirtied w last).header.logLength ≠ 0 from show (1048576 : UInt32) ≠ 0 by decide),
        Outcome.rejectIf_of_not]
    rintro ⟨e,he,-,ho⟩
    simp only [withUnknown,Build.regions,writtenRegions,List.cons_append,List.nil_append,List.mem_cons,
      List.not_mem_nil,or_false] at he
    rcases he with rfl | rfl | rfl
    · exact absurd ho (show ¬ 3145728 < saturatingAdd 1048576 1048576 by decide)
    · exact absurd ho (show ¬ 2097152 < saturatingAdd 1048576 1048576 by decide)
    · exact absurd ho (show ¬ 3 * oneMib + 65536 < saturatingAdd 1048576 1048576 by decide)

private theorem unknownDirty_finds :
    FindsChain (unknownDirty w last) (dirtied w last).header .one (dirtiedChain w last) := by
  refine ⟨⟨_,unknownDirty_identified⟩,dirtied_pending (Device.bytes_put_of_disjoint (.inr ?_))⟩
  rw [length_encodeRegions (by decide)]
  decide

omit [Crc32c] in
private theorem unknownDirty_unknown : (⟨withUnknown⟩ : RegionTable).unknownRequired.isSome = true := by decide

private theorem unknownDirty_applies (hw : w.fileOffset.toNat + logSectorSize ≤ last.toNat) (h : 4194304 ≤ last.toNat)
    (hmax : last.toNat ≤ 4194304 + descriptorGrowth) : Applies (unknownDirty w last) (dirtiedChain w last) where
  found := ⟨_,_,unknownDirty_finds⟩
  pending h := by cases h
  fits := by
    rw [size_unknownDirty]
    exact dirtied_fits hw h hmax
  room := .inl rfl

private theorem unknownDirty_off (hw : oneMib ≤ w.fileOffset.toNat) {header : Header} {slot : HeaderSlot}
    {chain : List LogEntry} (h : FindsChain (unknownDirty w last) header slot chain) :
    LandsOff chain ⟨regionTable1Offset,regionTableSize⟩ ∧
      LandsOff chain ⟨regionTable2Offset,regionTableSize⟩ := by
  obtain ⟨-,-,rfl⟩ := unknownDirty_finds.unique h
  exact ⟨dirtied_landsOff hw (show regionTable1Offset + regionTableSize ≤ oneMib by decide),
    dirtied_landsOff hw (show regionTable2Offset + regionTableSize ≤ oneMib by decide)⟩

end dirty

/-- A log that grows the file is applied by an open that fails; one that puts zeros where there are zeros leaves the
file as it was. -/
theorem unknown_required_untouched_unknownDirty :
    letI := castagnoli
    let grows := unknownDirty ⟨4194304,⟨zeros logSectorSize,length_zeros _⟩⟩ 5242880
    let stays := unknownDirty ⟨3670016,⟨zeros logSectorSize,length_zeros _⟩⟩ 4194304
    (¬ ∀ rc p, Opener grows rc p → (rc = true → grows.writable = true) → ∃ e, p.on grows = (.err e,grows)) ∧
    (∃ chain, stays.writable = true ∧ Applies stays chain) ∧
    ∀ rc p, Opener stays rc p → (rc = true → stays.writable = true) → ∃ e, p.on stays = (.err e,stays) := by
  let := castagnoli
  intro grows stays
  have hgrows : Applies grows (dirtiedChain ⟨4194304,⟨zeros logSectorSize,length_zeros _⟩⟩ 5242880) :=
    unknownDirty_applies (show (4194304 : UInt64).toNat + logSectorSize ≤ (5242880 : UInt64).toNat by decide)
      (show 4194304 ≤ (5242880 : UInt64).toNat by decide)
        (show (5242880 : UInt64).toNat ≤ 4194304 + descriptorGrowth by decide)
  have hstays : Applies stays (dirtiedChain ⟨3670016,⟨zeros logSectorSize,length_zeros _⟩⟩ 4194304) :=
    unknownDirty_applies (show (3670016 : UInt64).toNat + logSectorSize ≤ (4194304 : UInt64).toNat by decide)
      (show 4194304 ≤ (4194304 : UInt64).toNat by decide)
        (show (4194304 : UInt64).toNat ≤ 4194304 + descriptorGrowth by decide)
  refine ⟨fun hall => ?_,⟨_,rfl,hstays⟩,?_⟩
  · have hiff := unknown_required_untouched_iff (d := grows) unknownDirty_identified.table unknownDirty_unknown fun _ _ _ h =>
      unknownDirty_off (show oneMib ≤ (4194304 : UInt64).toNat by decide) h
    have hsame := congrArg Device.size (hiff.mp hall _ rfl hgrows)
    rw [Device.size_replayed,show grows.size = 4194304 from size_unknownDirty] at hsame
    have hgrown := allowedExtent_dirtied (w := ⟨4194304,⟨zeros logSectorSize,length_zeros _⟩⟩)
      (show 4194304 ≤ (5242880 : UInt64).toNat by decide)
      (show (5242880 : UInt64).toNat ≤ 4194304 + descriptorGrowth by decide) (by decide)
    exact absurd (hgrown.symm.trans hsame) (by decide)
  · refine (unknown_required_untouched_iff (d := stays) unknownDirty_identified.table unknownDirty_unknown fun _ _ _ h =>
      unknownDirty_off (show oneMib ≤ (3670016 : UInt64).toNat by decide) h).mpr fun chain _ ha => ?_
    rw [ha.unique hstays]
    have hsize : stays.size = 4194304 := size_unknownDirty
    have hkept : allowedExtent stays.size (dirtiedChain ⟨3670016,⟨zeros logSectorSize,length_zeros _⟩⟩ 4194304) =
        stays.size := by
      rw [hsize]
      exact allowedExtent_dirtied (show 4194304 ≤ (4194304 : UInt64).toNat by decide)
        (show (4194304 : UInt64).toNat ≤ 4194304 + descriptorGrowth by decide) (by decide)
    have hzeros : stays.bytes 3670016 logSectorSize = zeros logSectorSize := by
      refine (Device.bytes_put_of_disjoint (.inr ?_)).trans ?_
      · rw [length_encodeRegions (by decide)]
        decide
      rw [Build.bytes_device (b := dirtied _ _) (show oneMib ≤ 3670016 by decide)
        (.inr (show 2097152 + metadataRegionSize ≤ 3670016 by decide))]
      refine (Device.bytes_put_of_disjoint (.inr ?_)).trans Device.bytes_zeroed
      rw [length_dirtiedEntry]
      decide
    unfold Device.replayed
    rw [hkept,Device.resize_self]
    change stays.put (3670016 : UInt64).toNat (zeros logSectorSize) = stays
    exact Device.put_of_bytes (by rw [length_zeros]; exact hzeros)

/-- A dirty image whose log grows the file by a megabyte, opened in place. -/
theorem unknown_required_written_to :
    letI := castagnoli
    let d := unknownDirty ⟨4194304,⟨zeros logSectorSize,length_zeros _⟩⟩ 5242880
    regionsAt d d.size = .ok ⟨withUnknown⟩ ∧ (RegionTable.mk withUnknown).unknownRequired.isSome = true ∧
    (∀ header slot chain, FindsChain d header slot chain → LandsOff chain ⟨regionTable1Offset,regionTableSize⟩ ∧
      LandsOff chain ⟨regionTable2Offset,regionTableSize⟩) ∧
    d.size = 4194304 ∧ ∃ e d', (openOnDevice d).on d = (.err e,d') ∧ d'.size = 5242880 := by
  let := castagnoli
  intro d
  have hoff : ∀ header slot chain, FindsChain d header slot chain →
    LandsOff chain ⟨regionTable1Offset,regionTableSize⟩ ∧
      LandsOff chain ⟨regionTable2Offset,regionTableSize⟩ := fun _ _ _ h =>
    unknownDirty_off (show oneMib ≤ (4194304 : UInt64).toNat by decide) h
  have happ : Applies d (dirtiedChain ⟨4194304,⟨zeros logSectorSize,length_zeros _⟩⟩ 5242880) :=
    unknownDirty_applies (show (4194304 : UInt64).toNat + logSectorSize ≤ (5242880 : UInt64).toNat by decide)
      (show 4194304 ≤ (5242880 : UInt64).toNat by decide)
        (show (5242880 : UInt64).toNat ≤ 4194304 + descriptorGrowth by decide)
  have hsize : d.size = 4194304 := size_unknownDirty
  refine ⟨unknownDirty_identified.table,unknownDirty_unknown,hoff,hsize,?_⟩
  have hoff' : ∀ chain, Applies d chain → LandsOff chain ⟨regionTable1Offset,regionTableSize⟩ ∧
      LandsOff chain ⟨regionTable2Offset,regionTableSize⟩ := fun chain ha => by
    obtain ⟨header,slot,hf⟩ := ha.found
    exact hoff header slot chain hf
  have hwritable : true = true → d.writable = true := fun _ => rfl
  rcases on_openInner_of_unknown unknownDirty_identified.table unknownDirty_unknown hoff' false hwritable with
    ⟨chain,e,-,ha,hrun⟩ | ⟨e,hno,-⟩
  · refine ⟨e,_,hrun,?_⟩
    rw [ha.unique happ,Device.size_replayed,hsize]
    exact allowedExtent_dirtied (show 4194304 ≤ (5242880 : UInt64).toNat by decide)
      (show (5242880 : UInt64).toNat ≤ 4194304 + descriptorGrowth by decide) (by decide)
  · exact absurd happ (hno rfl _)

end ImgVhdx
