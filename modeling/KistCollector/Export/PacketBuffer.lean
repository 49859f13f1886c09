import KistCollector.Export.ToImages

/-!
# The packet buffer of the image exporter

For each row `ExportColorToImages` asks libav for a packet of `int(size)` bytes and then reads
`std::streamsize(size)` bytes into it. The size is any `uint64_t` that an index can hold, and the result
of the allocation is not looked at. `packet_buffer_iff` says when every read stays inside its packet, and
a payload without room for all of it ends the run before it is read.
-/

namespace Kist
namespace ExportColorToImages

/-- `av_new_packet`, called for turn `i`: the bytes it allocates, which are the size and 64 bytes of
padding, or `none`. It fails for sizes that are negative or do not fit with the padding, and may fail for
others for want of memory. -/
structure NewPacket where
  alloc : Nat → Int32 → Option Nat
  of_some : ∀ {i n a}, alloc i n = some a → 0 ≤ n.toInt ∧ n.toInt ≤ maxPacket ∧ a = n.toInt.toNat + 64

/-- There is always enough memory. -/
def NewPacket.enough : NewPacket where
  alloc _ n := if 0 ≤ n.toInt ∧ n.toInt ≤ maxPacket then some (n.toInt.toNat + 64) else none
  of_some := by
    intro _ n a h
    split at h <;> cases h
    rename_i hn
    exact ⟨hn.1, hn.2, rfl⟩

/-- The packet of turn `i` for a row: the size is narrowed to an `int`. -/
def NewPacket.packet (A : NewPacket) (i : Nat) (row : Row) : Option Nat :=
  A.alloc i (.ofNat row.size.toNat)

/-- The bytes allocated for the packet of a turn, the size of its row, and the bytes read. -/
structure BufferRead where
  allocated : Nat
  size : Nat
  bytes : Nat
  deriving DecidableEq

/-- Reads up to this size go through the buffer of the stream. -/
def streamBuffer : Nat := 8191

/-- A read that goes past the stream's buffer is handed to the system, which delivers nothing through a
null pointer. -/
def refused (packet : Option Nat) (row : Row) : Bool :=
  packet.isNone && decide (streamBuffer < row.size.toNat)

/-- `av_new_packet` and `blob.read`, which takes as many bytes as there are, up to the size. A failed
`av_new_packet` leaves a null pointer. -/
def readPacket (packet : Option Nat) (blob : List UInt8) (row : Row) : BufferRead where
  allocated := packet.getD 0
  size := row.size.toNat
  bytes := if refused packet row then 0 else
    min row.size.toNat (available blob row.offset row.size)

/-- The payload, where `blob` is good after the read. -/
def payload (packet : Option Nat) (blob : List UInt8) (row : Row) : Option (List UInt8) :=
  if refused packet row then none else readSlice blob row.offset row.size

variable {ι : Type} {D : H264Decoder ι}

/-- The state of `run`, with the reads into packets so far. -/
structure Packeting (D : H264Decoder ι) where
  out : Exported D
  reads : List BufferRead := []

/-- The loop over the rows from the first key frame on, from turn `i` on. What follows a read past the end
of its packet is not defined; the run is taken to end there. -/
def packetRows (A : NewPacket) (env : ImagesEnv) (blob : List UInt8) :
    List Row → Nat → Packeting D → Packeting D
  | [], _, s => s
  | row :: rows, i, s =>
    if env.cancelled i then s
    else
      let read := readPacket (A.packet i row) blob row
      let s := { s with reads := s.reads ++ [read] }
      if read.allocated < read.bytes then { s with out := { s.out with ioOk := false, died := true } }
      else
        match payload (A.packet i row) blob row with
        | none => { s with out := { s.out with ioOk := false } }
        | some data =>
          packetRows A env blob rows (i + 1)
            { s with out := sendPacket env s.out ⟨data, row.seq.toInt64⟩ }

/-- `run`, with the packets in their buffers. -/
def packetRun (A : NewPacket) (D : H264Decoder ι) (env : ImagesEnv) (index : List Char)
    (blob : List UInt8) (folder : Folder (List Char) ι) : Packeting D :=
  match readIndex index with
  | (rows, some k) =>
    let s := packetRows A env blob (rows.drop k) 0 { out := { decoder := D.init, folder := folder } }
    { s with out := drain env { s.out with decoder := (D.send s.out.decoder none).2 } }
  | (_, none) => { out := { decoder := D.init, folder := folder } }

/-- Every byte of the row's slice is in the blob. -/
def Inside (blob : List UInt8) (row : Row) : Prop :=
  ∀ j < row.size.toNat, row.offset.toNat + j < blob.length

/-- No read is longer than its packet; where a packet has no room for the row's full size nothing is read
into it and the run does not succeed. What the decoder is sent are whole slices of rows. -/
structure InBuffer (blob : List UInt8) (rows : List Row) (s : Packeting D) : Prop where
  fits : ∀ r ∈ s.reads, r.bytes ≤ r.allocated
  room : ∀ r ∈ s.reads, r.size ≤ r.allocated ∨ (r.bytes = 0 ∧ s.out.ioOk = false)
  whole : ∀ p ∈ s.out.sent, ∃ row ∈ rows, p.data = slice blob row.offset row.size ∧ Inside blob row

/-- The size is not narrowed and there is a packet for it, or nothing is read: the row has no payload,
there is no packet for it and its size is past the stream's buffer, or the blob has nothing at its
offset. -/
def Room (packet : Option Nat) (blob : List UInt8) (row : Row) : Prop :=
  (row.size.toNat < 2 ^ 31 ∧ packet.isSome = true) ∨ row.size.toNat = 0 ∨
    (packet = none ∧ streamBuffer < row.size.toNat) ∨
    2 ^ 63 ≤ row.offset.toNat ∨ 2 ^ 63 ≤ row.size.toNat ∨ blob.length ≤ row.offset.toNat

/-- There is room for each row that the loop reaches: it is left where it is cancelled or a payload is not
read completely. -/
def RoomFrom (A : NewPacket) (env : ImagesEnv) (blob : List UInt8) : List Row → Nat → Prop
  | [], _ => True
  | row :: rows, i => env.cancelled i = false → Room (A.packet i row) blob row ∧
      ((payload (A.packet i row) blob row).isSome = true → RoomFrom A env blob rows (i + 1))

/-! ## One row -/

/-- The read stays in its packet, and there is room for the row or nothing is read. -/
def BufferRead.Good (r : BufferRead) : Prop :=
  r.bytes ≤ r.allocated ∧ (r.size ≤ r.allocated ∨ r.bytes = 0)

theorem available_eq_zero_iff (blob : List UInt8) (offset size : UInt64) :
    available blob offset size = 0 ↔
      2 ^ 63 ≤ offset.toNat ∨ 2 ^ 63 ≤ size.toNat ∨ blob.length ≤ offset.toNat := by
  rw [available, ← or_assoc]
  split
  · rename_i h
    exact iff_of_true rfl (.inl h)
  · rename_i h
    rw [or_iff_right h]
    omega

/-- A packet has room for a size exactly if the size was not narrowed. -/
theorem size_le_iff {A : NewPacket} {i : Nat} {row : Row} (h : A.packet i row = some a) :
    row.size.toNat ≤ a ↔ row.size.toNat < 2 ^ 31 := by
  obtain ⟨hlo, hhi, rfl⟩ := A.of_some h
  unfold maxPacket at hhi
  constructor
  · omega
  · intro hlt
    rw [Int32.toInt_ofNat_of_lt hlt]
    omega

theorem good_iff (A : NewPacket) (blob : List UInt8) (i : Nat) (row : Row) :
    (readPacket (A.packet i row) blob row).Good ↔ Room (A.packet i row) blob row := by
  unfold BufferRead.Good Room
  simp only [readPacket, ← available_eq_zero_iff]
  cases ha : A.packet i row with
  | none =>
    simp only [refused, Option.isNone_none, Bool.true_and, decide_eq_true_eq, Option.getD_none]
    split
    · rename_i hbig
      simp [hbig]
    · rename_i hsmall
      simp [hsmall]
  | some a =>
    have hroom := size_le_iff ha
    simp only [refused, Option.isNone_some, Bool.false_and, Bool.false_eq_true, if_false,
      Option.getD_some, Option.isSome_some, and_true, reduceCtorEq, false_and, false_or, min_le_iff]
    rw [hroom]
    by_cases hlt : row.size.toNat < 2 ^ 31
    · exact iff_of_true ⟨.inl hlt, .inl hlt⟩ (.inl hlt)
    · -- a narrowed size is longer than the packet, so nothing may be read
      simp only [hlt, false_or]
      constructor
      · omega
      · rintro (h | h)
        · omega
        · simp [h]

theorem inside_of_readSlice {blob data : List UInt8} {row : Row}
    (h : readSlice blob row.offset row.size = some data) : Inside blob row := by
  obtain ⟨-, -, -, hlen⟩ := readSlice_eq_some_iff.mp h
  rw [slice, List.length_take, List.length_drop] at hlen
  intro j hj
  omega

theorem readSlice_of_payload {packet : Option Nat} {blob data : List UInt8} {row : Row}
    (h : payload packet blob row = some data) : readSlice blob row.offset row.size = some data := by
  unfold payload at h
  split at h
  · cases h
  · exact h

/-- A payload that is read completely gives as many bytes as its size says. -/
theorem bytes_of_payload {packet : Option Nat} {blob data : List UInt8} {row : Row}
    (h : payload packet blob row = some data) :
    (readPacket packet blob row).bytes = row.size.toNat := by
  have hread := readSlice_of_payload h
  obtain ⟨-, hoffset, hsize, hlen⟩ := readSlice_eq_some_iff.mp hread
  unfold payload at h
  split at h
  · cases h
  · rename_i hrefused
    rw [readPacket, if_neg hrefused, available, if_neg (by omega)]
    rw [slice, List.length_take, List.length_drop] at hlen
    omega

/-! ## The loop -/

variable {A : NewPacket} {env : ImagesEnv} {blob : List UInt8}

/-- The loop goes on only behind rows that had room. -/
theorem reads_packetRows (A : NewPacket) (env : ImagesEnv) (blob : List UInt8) (rows : List Row)
    (i : Nat) (s : Packeting D)
    (hs : ∀ r ∈ s.reads, r.bytes ≤ r.allocated ∧ r.size ≤ r.allocated) :
    ((∀ r ∈ (packetRows A env blob rows i s).reads, r.Good) ↔ RoomFrom A env blob rows i) ∧
      ∀ r ∈ (packetRows A env blob rows i s).reads, r.size ≤ r.allocated ∨
        (packetRows A env blob rows i s).out.ioOk = false := by
  have hgood : ∀ r ∈ s.reads, r.Good := fun r hr => ⟨(hs r hr).1, .inl (hs r hr).2⟩
  fun_induction packetRows A env blob rows i s with
  | case1 i s => exact ⟨iff_of_true hgood trivial, fun r hr => .inl (hs r hr).2⟩
  | case2 row rows i s hcancel =>
    refine ⟨iff_of_true hgood fun hno => ?_, fun r hr => .inl (hs r hr).2⟩
    exact absurd (hno.symm.trans hcancel) Bool.false_ne_true
  | case3 row rows i s hcancel read s' hlt =>
    refine ⟨iff_of_false (fun H => ?_) (fun H => ?_), fun r _ => .inr rfl⟩
    · exact absurd (H read (List.mem_append_right _ List.mem_cons_self)).1 (Nat.not_le_of_lt hlt)
    · have hroom := (good_iff A blob i row).mpr (H (by simpa using hcancel)).1
      exact absurd hroom.1 (Nat.not_le_of_lt hlt)
  | case4 row rows i s hcancel read s' hlt hread =>
    refine ⟨?_, fun r _ => .inr rfl⟩
    have hcancel : env.cancelled i = false := by simpa using hcancel
    simp only [s', RoomFrom, hread, hcancel, List.forall_mem_append, List.forall_mem_singleton,
      Option.isSome_none, Bool.false_eq_true, false_imp_iff, and_true, true_imp_iff]
    rw [and_iff_right hgood]
    exact good_iff A blob i row
  | case5 row rows i s hcancel read s' hlt data hread ih =>
    have hcancel : env.cancelled i = false := by simpa using hcancel
    have hle : read.bytes ≤ read.allocated := Nat.not_lt.mp hlt
    have hsize : read.size ≤ read.allocated := by
      rw [show read.size = read.bytes from (bytes_of_payload hread).symm]
      exact hle
    have hs' : ∀ r ∈ s'.reads, r.bytes ≤ r.allocated ∧ r.size ≤ r.allocated := by
      simp only [s', List.forall_mem_append, List.forall_mem_singleton]
      exact ⟨hs, hle, hsize⟩
    obtain ⟨hiff, hlast⟩ := ih hs' fun r hr => ⟨(hs' r hr).1, .inl (hs' r hr).2⟩
    refine ⟨hiff.trans ?_, hlast⟩
    have hroom : Room (A.packet i row) blob row := (good_iff A blob i row).mp ⟨hle, .inl hsize⟩
    simp only [RoomFrom, hcancel, hread, hroom, Option.isSome_some, true_imp_iff, true_and]

theorem sent_packetRows (A : NewPacket) (env : ImagesEnv) (blob : List UInt8) (rows : List Row)
    (i : Nat) (s : Packeting D) : ∀ p ∈ (packetRows A env blob rows i s).out.sent,
      p ∈ s.out.sent ∨ ∃ row ∈ rows, readSlice blob row.offset row.size = some p.data := by
  fun_induction packetRows A env blob rows i s with
  | case1 i s | case2 row rows i s | case3 row rows i s | case4 row rows i s => exact fun p hp => .inl hp
  | case5 row rows i s hcancel read s' hlt data hread ih =>
    intro p hp
    rcases ih p hp with hp | ⟨row', hrow', hread'⟩
    · rw [sent_sendPacket] at hp
      rcases List.mem_append.mp hp with hp | hp
      · exact .inl hp
      · cases List.mem_singleton.mp hp
        exact .inr ⟨row, List.mem_cons_self, readSlice_of_payload hread⟩
    · exact .inr ⟨row', List.mem_cons_of_mem _ hrow', hread'⟩

/-- With enough memory, what is read into a packet that is too short goes past its end. -/
theorem overflows_iff (blob : List UInt8) (i : Nat) (row : Row) :
    (readPacket (NewPacket.enough.packet i row) blob row).allocated <
      (readPacket (NewPacket.enough.packet i row) blob row).bytes ↔ overflows blob row = true := by
  have hpacket : NewPacket.enough.packet i row =
      if 0 ≤ (Int32.ofNat row.size.toNat).toInt ∧ (Int32.ofNat row.size.toNat).toInt ≤ maxPacket then
        some ((Int32.ofNat row.size.toNat).toInt.toNat + 64) else none := rfl
  rw [hpacket, overflows, decide_eq_true_eq, ← and_assoc]
  split
  · rename_i hn
    rw [and_iff_right hn]
    rfl
  · rename_i hn
    refine iff_of_false (fun hlt => ?_) (fun h => hn h.1)
    -- a size without a packet is past the stream's buffer
    have hbig : streamBuffer < row.size.toNat := by
      by_contra hsmall
      have hlt : row.size.toNat < 2 ^ 31 := by unfold streamBuffer at hsmall; omega
      rw [Int32.toInt_ofNat_of_lt hlt] at hn
      unfold maxPacket at hn
      unfold streamBuffer at hsmall
      omega
    simp [readPacket, refused, hbig] at hlt

theorem refused_enough (i : Nat) (row : Row) :
    refused (NewPacket.enough.packet i row) row = true → maxPacket < row.size.toNat := by
  intro h
  by_contra hle
  have hle := Nat.not_lt.mp hle
  unfold maxPacket at hle
  have hsome : NewPacket.enough.packet i row = some (row.size.toNat + 64) := by
    rw [NewPacket.packet, NewPacket.enough]
    dsimp only
    rw [Int32.toInt_ofNat_of_lt (by omega), if_pos (by unfold maxPacket; omega)]
    rfl
  rw [hsome] at h
  simp [refused] at h

/-- With enough memory the loop is that of `run`. -/
theorem out_packetRows (env : ImagesEnv) (blob : List UInt8) (rows : List Row) (i : Nat)
    (s : Packeting D) :
    (packetRows .enough env blob rows i s).out = sendRows env blob rows i s.out := by
  fun_induction packetRows .enough env blob rows i s with
  | case1 i s => rfl
  | case2 row rows i s hcancel => rw [sendRows, if_pos hcancel]
  | case3 row rows i s hcancel read s' hlt =>
    rw [sendRows, if_neg hcancel, if_pos ((overflows_iff blob i row).mp hlt)]
  | case4 row rows i s hcancel read s' hlt hread =>
    have hover : ¬ overflows blob row = true := fun h => hlt ((overflows_iff blob i row).mpr h)
    rw [sendRows, if_neg hcancel, if_neg hover]
    by_cases hsize : maxPacket < row.size.toNat
    · rw [if_pos hsize]
    · have hread' : readSlice blob row.offset row.size = none := by
        unfold payload at hread
        rwa [if_neg fun h => hsize (refused_enough i row h)] at hread
      rw [if_neg hsize, hread']
  | case5 row rows i s hcancel read s' hlt data hread ih =>
    have hover : ¬ overflows blob row = true := fun h => hlt ((overflows_iff blob i row).mpr h)
    have hsize : ¬ maxPacket < row.size.toNat := by
      intro hbig
      have hbytes : read.bytes = row.size.toNat := bytes_of_payload hread
      cases hp : NewPacket.enough.packet i row with
      | none =>
        have hzero : read.allocated = 0 := by rw [show read = readPacket _ blob row from rfl, hp]; rfl
        omega
      | some a =>
        have hallocated : read.allocated = a := by
          rw [show read = readPacket _ blob row from rfl, hp]
          rfl
        have hlt31 := (size_le_iff hp).mp (by omega)
        obtain ⟨-, hhi, -⟩ := NewPacket.enough.of_some hp
        rw [Int32.toInt_ofNat_of_lt hlt31] at hhi
        omega
    rw [ih, sendRows, if_neg hcancel, if_neg hover, if_neg hsize, readSlice_of_payload hread]

/-! ## The run -/

theorem sent_packetRun (A : NewPacket) (env : ImagesEnv) (index : List Char) (blob : List UInt8)
    (folder : Folder (List Char) ι) : ∀ p ∈ (packetRun A D env index blob folder).out.sent,
      ∃ row ∈ (readIndex index).1, readSlice blob row.offset row.size = some p.data := by
  unfold packetRun
  split
  · rename_i rows k hrows
    intro p hp
    -- the flush sends no packet
    rw [sent_drain] at hp
    rcases sent_packetRows A env blob (rows.drop k) 0 _ p hp with hp | ⟨row, hrow, hread⟩
    · cases hp
    · rw [hrows]
      exact ⟨row, List.mem_of_mem_drop hrow, hread⟩
  · intro p hp
    cases hp

/-- With enough memory, what the run does is `run`. -/
theorem out_packetRun (env : ImagesEnv) (index : List Char) (blob : List UInt8)
    (folder : Folder (List Char) ι) :
    (packetRun .enough D env index blob folder).out = (run D env index (some blob) folder).1 := by
  unfold packetRun run
  rcases readIndex index with ⟨rows, _ | k⟩
  · rfl
  · simp only [out_packetRows]

/-- The reads of a run stay in their packets, with room for each payload that is read, exactly if there is
room for every row that is reached. That only whole slices are sent holds of every run. -/
theorem packet_buffer_iff (A : NewPacket) (env : ImagesEnv) (index : List Char) (blob : List UInt8)
    (folder : Folder (List Char) ι) :
    InBuffer blob (readIndex index).1 (packetRun A D env index blob folder) ↔
      ∀ k, (readIndex index).2 = some k →
        RoomFrom A env blob ((readIndex index).1.drop k) 0 := by
  have hslices : ∀ p ∈ (packetRun A D env index blob folder).out.sent,
      ∃ row ∈ (readIndex index).1, p.data = slice blob row.offset row.size ∧ Inside blob row := by
    intro p hp
    obtain ⟨row, hrow, hread⟩ := sent_packetRun A env index blob folder p hp
    exact ⟨row, hrow, readSlice_eq hread, inside_of_readSlice hread⟩
  cases hindex : readIndex index with
  | mk rows key =>
  cases key with
  | none =>
    refine iff_of_true ⟨?_, ?_, by simpa [hindex] using hslices⟩ nofun
    · simp [packetRun, hindex]
    · simp [packetRun, hindex]
  | some k =>
    obtain ⟨hiff, hlast⟩ := reads_packetRows (D := D) A env blob (rows.drop k) 0
      { out := { decoder := D.init, folder := folder } } nofun
    have hreads : (packetRun A D env index blob folder).reads = (packetRows A env blob (rows.drop k) 0
        { out := { decoder := D.init, folder := folder : Exported D } }).reads := by
      simp [packetRun, hindex]
    simp only [Option.some.injEq, forall_eq', ← hiff]
    rw [hindex] at hslices
    constructor
    · intro H r hr
      rw [← hreads] at hr
      exact ⟨H.fits r hr, (H.room r hr).imp_right And.left⟩
    · intro H
      refine ⟨fun r hr => (H r (hreads ▸ hr)).1, fun r hr => ?_, hslices⟩
      have hr : r ∈ _ := hreads ▸ hr
      rcases (H r hr).2 with hsize | hzero
      · exact .inl hsize
      · refine (hlast r hr).imp_right fun hok => ⟨hzero, ?_⟩
        simp only [packetRun, hindex]
        refine Bool.eq_false_iff.mpr fun h => ?_
        have hbefore := ioOk_of_drain h
        exact Bool.false_ne_true (hok.symm.trans hbefore)

/-- A size of `2 ^ 32 + 5`: the packet is one for 5 bytes, and 70 bytes are read into it. -/
theorem packet_buffer_exceeded :
    ¬ InBuffer (List.replicate 70 9)
      (readIndex "header\n0,0,0,640,480,1,0,4294967301\n".toList).1
      (packetRun .enough H264Decoder.payload .smooth
        "header\n0,0,0,640,480,1,0,4294967301\n".toList (List.replicate 70 9) fun _ => none) := by
  intro h
  have hfits := h.fits ⟨69, 4294967301, 70⟩
  revert hfits
  decide +kernel

end ExportColorToImages
end Kist
