import KistCollector.Export.ReadBack
import KistCollector.Lib.StrictEnvelope

/-!
# Exporting a color stream as mp4

`ExportColorToMp4.run` copies the access units that the demuxer finds behind the first key frame into
packets, one for each index row, and stamps each from the row's arrival time. The demuxer, the muxer and
the rescaling are libav's. The time stamps are the least strictly increasing ones that are not before the
arrivals (`pts_least`).
-/

namespace Kist

open StrictEnvelope

/-- `av_rescale_q` from microseconds to 1/90000 s: to the nearest, and away from zero if two are. -/
structure Rescale where
  rescale : Int64 → Int64
  nearest : ∀ a, 2 * (1000000 * (rescale a).toInt - 90000 * a.toInt).natAbs ≤ 1000000
  away : ∀ a, 2 * (1000000 * (rescale a).toInt - 90000 * a.toInt).natAbs = 1000000 →
    (90000 * a.toInt).natAbs < (1000000 * (rescale a).toInt).natAbs

/-- Half away from zero. -/
def Rescale.halfAway : Rescale where
  rescale a := .ofInt (if a.toInt < 0 then -((500000 - 90000 * a.toInt) / 1000000)
    else (500000 + 90000 * a.toInt) / 1000000)
  nearest a := by
    have hlo := a.le_toInt
    have hhi := a.toInt_lt
    rw [Int64.toInt_ofInt_of_le (by split <;> omega) (by split <;> omega)]
    split <;> omega
  away a := by
    have hlo := a.le_toInt
    have hhi := a.toInt_lt
    rw [Int64.toInt_ofInt_of_le (by split <;> omega) (by split <;> omega)]
    split <;> omega

theorem Rescale.zero (R : Rescale) : (R.rescale 0).toInt = 0 := by
  have hnear := R.nearest 0
  rw [show (0 : Int64).toInt = 0 from rfl] at hnear
  omega

namespace ExportColorToMp4

/-- `pkt`. The time stamps stay far below `2 ^ 63` (`pts_lt`). -/
structure Packet where
  data : List UInt8
  pts : Int
  dts : Int
  duration : Int
  deriving DecidableEq

/-- What is outside the exporter: the access units the demuxer finds in the bytes it is fed, or `none` if
it cannot parse them; whether the output opens; `cancel_` at the head of turn `i` and after the loop; and
whether the muxer takes packet `i`. -/
structure Env where
  demux : List UInt8 → Option (List (List UInt8))
  openOutput : Bool
  cancelled : Nat → Bool
  cancelledAfter : Bool
  writeFrame : Nat → Bool

/-- The packets handed to the muxer, of which it took the first `i`. -/
structure Remuxed where
  packets : List Packet
  i : Nat
  writeOk : Bool
  deriving DecidableEq

/-- Microseconds since the first key frame. -/
def rowUs (t0 : Int64) (row : Row) : Int64 := (row.recvNs - t0) / 1000

/-- The loop over the packets, from turn `i` on; `rows` are those from `k + i` on. -/
def remuxFrom (R : Rescale) (env : Env) (t0 : Int64) :
    List (List UInt8) → List Row → Nat → Int → Remuxed
  | unit :: units, row :: rows, i, lastPts =>
    if env.cancelled i then ⟨[], i, true⟩
    else
      let pts := rowUs t0 row
      let next := match rows with
        | row' :: _ => rowUs t0 row'
        | [] => pts + 33333
      let ts := if (R.rescale pts).toInt ≤ lastPts then lastPts + 1 else (R.rescale pts).toInt
      let pkt : Packet := ⟨unit, ts, ts, (R.rescale (next - pts)).toInt⟩
      if env.writeFrame i then
        let rest := remuxFrom R env t0 units rows (i + 1) ts
        { rest with packets := pkt :: rest.packets }
      else ⟨[pkt], i, false⟩
  | _, _, i, _ => ⟨[], i, true⟩

/-- The loop over the packets of the rows from the first key frame on. -/
def remux (R : Rescale) (env : Env) (units : List (List UInt8)) (rows : List Row) : Remuxed :=
  match rows with
  | [] => ⟨[], 0, true⟩
  | key :: _ => remuxFrom R env key.recvNs units rows 0 (-2 ^ 63)

/-- `read_cb`: at the end of the file no bytes. -/
def readCb (file : List UInt8) (n : Nat) : List UInt8 × List UInt8 := (file.take n, file.drop n)

/-- What the demuxer is fed by calls that ask for `ns` bytes. -/
def fed (file : List UInt8) : List Nat → List UInt8
  | [] => []
  | n :: ns => (readCb file n).1 ++ fed (readCb file n).2 ns

theorem fed_eq (file : List UInt8) (ns : List Nat) : fed file ns = file.take ns.sum := by
  induction ns generalizing file with
  | nil => rfl
  | cons n ns ih => rw [fed, ih, List.sum_cons, List.take_add]; rfl

/-- The packets the muxer took, and `succeeded()`. `none` is a blob that does not open. -/
def run (R : Rescale) (env : Env) (index : List Char) (blob : Option (List UInt8)) :
    List Packet × Bool :=
  let idx := readIndex index
  match idx.firstKey, blob with
  | some k, some blob =>
    -- `long(cut_offset)` is negative from `2 ^ 63` on, and `fseek` fails
    if idx.rows.length < 2 ∨ 2 ^ 63 ≤ idx.cutOffset.toNat then ([], false)
    else
      match env.demux (blob.drop idx.cutOffset.toNat) with
      | none => ([], false)
      | some units =>
        if env.openOutput then
          let out := remux R env units (idx.rows.drop k)
          (out.packets.take out.i,
            out.writeOk && !env.cancelledAfter && out.i == idx.rows.length - k)
        else ([], false)
  | _, _ => ([], false)

/-! ## The time stamps -/

/-- Microseconds since the first key frame, without overflow. -/
def arrivalUs (t0 recvNs : Int64) : Int := (recvNs.toInt - t0.toInt).tdiv 1000

/-- The arrivals of the rows on the packets' clock. -/
def arrivals (R : Rescale) (t0 : Int64) (rows : List Row) : List Int :=
  rows.map fun row => (R.rescale (.ofInt (arrivalUs t0 row.recvNs))).toInt

/-- The difference of the two clocks fits an `int64_t`. -/
def InRange (t0 recvNs : Int64) : Prop :=
  -2 ^ 63 ≤ recvNs.toInt - t0.toInt ∧ recvNs.toInt - t0.toInt < 2 ^ 63

instance (t0 recvNs : Int64) : Decidable (InRange t0 recvNs) := inferInstanceAs (Decidable (_ ∧ _))

theorem natAbs_arrivalUs {t0 recvNs : Int64} (h : InRange t0 recvNs) :
    (arrivalUs t0 recvNs).natAbs ≤ 2 ^ 63 / 1000 := by
  obtain ⟨hlo, hhi⟩ := h
  rw [arrivalUs, Int.natAbs_tdiv]
  exact Nat.div_le_div_right (by omega)

theorem arrivals_lt (R : Rescale) {t0 : Int64} {rows : List Row}
    (h : ∀ row ∈ rows, InRange t0 row.recvNs) : ∀ x ∈ arrivals R t0 rows, x < 2 ^ 50 := by
  intro x hx
  obtain ⟨row, hrow, rfl⟩ := List.mem_map.mp hx
  have habs := natAbs_arrivalUs (h row hrow)
  have hnear := R.nearest (.ofInt (arrivalUs t0 row.recvNs))
  rw [Int64.toInt_ofInt_of_le (by omega) (by omega)] at hnear
  omega

theorem rowUs_eq {t0 : Int64} {row : Row} (h : InRange t0 row.recvNs) :
    rowUs t0 row = .ofInt (arrivalUs t0 row.recvNs) := by
  have hsub : (row.recvNs - t0).toInt = row.recvNs.toInt - t0.toInt := by
    rw [Int64.toInt_sub]
    obtain ⟨hlo, hhi⟩ := h
    exact Int.bmod_eq_of_le (by omega) (by omega)
  have hdiv := Int64.toInt_div_of_ne_right (row.recvNs - t0) 1000 (by decide)
  rw [hsub] at hdiv
  rw [rowUs, ← Int64.ofInt_toInt ((row.recvNs - t0) / 1000), hdiv]
  rfl

/-- The row times on the packets' clock, as the code computes them. -/
def rowTimes (R : Rescale) (t0 : Int64) (rows : List Row) : List Int :=
  rows.map fun row => (R.rescale (rowUs t0 row)).toInt

theorem rowTimes_eq (R : Rescale) {t0 : Int64} {rows : List Row}
    (h : ∀ row ∈ rows, InRange t0 row.recvNs) : rowTimes R t0 rows = arrivals R t0 rows :=
  List.map_congr_left fun row hrow => by rw [rowUs_eq (h row hrow)]

/-- The time stamps of the packets are the times of their rows, pushed up. -/
theorem remuxFrom_pts (R : Rescale) (env : Env) (t0 : Int64) (units : List (List UInt8))
    (rows : List Row) (i : Nat) (lastPts : Int) :
    let packets := (remuxFrom R env t0 units rows i lastPts).packets
    packets.map (·.pts) = pushUp lastPts ((rowTimes R t0 rows).take packets.length) ∧
      ∀ p ∈ packets, p.dts = p.pts := by
  fun_induction remuxFrom R env t0 units rows i lastPts with
  | case1 unit units row rows i lastPts hcancel => exact ⟨rfl, nofun⟩
  | case2 unit units row rows i lastPts hcancel pts next ts pkt hwrite rest ih =>
    obtain ⟨hpts, hdts⟩ := ih
    refine ⟨?_, List.forall_mem_cons.mpr ⟨rfl, hdts⟩⟩
    exact congrArg (ts :: ·) hpts
  | case3 unit units row rows i lastPts hcancel pts next ts pkt hwrite =>
    exact ⟨rfl, List.forall_mem_singleton.mpr rfl⟩
  | case4 units rows i lastPts hne => exact ⟨rfl, nofun⟩

/-- Without cancellation and write errors, each unit that has a row goes into a packet. -/
theorem remuxFrom_complete (R : Rescale) {env : Env} (hcancel : ∀ i, env.cancelled i = false)
    (hwrite : ∀ i, env.writeFrame i = true) (t0 : Int64) {units : List (List UInt8)} {rows : List Row}
    (hlen : units.length = rows.length) (i : Nat) (lastPts : Int) :
    let out := remuxFrom R env t0 units rows i lastPts
    out.packets.map (·.data) = units ∧ out.i = i + units.length ∧ out.writeOk = true := by
  fun_induction remuxFrom R env t0 units rows i lastPts with
  | case1 unit units row rows i lastPts hc => exact absurd ((hcancel i).symm.trans hc) nofun
  | case2 unit units row rows i lastPts hc pts next ts pkt hw rest ih =>
    obtain ⟨hdata, hi, hok⟩ := ih (Nat.succ.inj hlen)
    refine ⟨congrArg (unit :: ·) hdata, ?_, hok⟩
    dsimp only
    rw [hi, List.length_cons]
    omega
  | case3 unit units row rows i lastPts hc pts next ts pkt hw => exact absurd (hwrite i) hw
  | case4 units rows i lastPts hne =>
    cases units with
    | nil => exact ⟨rfl, rfl, rfl⟩
    | cons unit units =>
      cases rows with
      | nil => cases hlen
      | cons row rows => exact absurd rfl (hne _ _ _ _ rfl)

/-- A run without cancellation and write errors emits a packet for each unit, if there are as many as
rows from the first key frame on. -/
theorem run_complete (R : Rescale) {env : Env} (hopen : env.openOutput = true)
    (hcancel : ∀ i, env.cancelled i = false) (hafter : env.cancelledAfter = false)
    (hwrite : ∀ i, env.writeFrame i = true) {index : List Char} {blob : List UInt8}
    (hkey : (readIndex index).firstKey = some k) (htwo : 2 ≤ (readIndex index).rows.length)
    (hcut : (readIndex index).cutOffset.toNat < 2 ^ 63)
    (hdemux : env.demux (blob.drop (readIndex index).cutOffset.toNat) = some units)
    (hdrop : (readIndex index).rows.drop k = key :: rows) (hlen : units.length = rows.length + 1) :
    let out := run R env index (some blob)
    out.2 = true ∧ out.1.map (·.data) = units ∧
      out.1.map (·.pts) = pushUp (-2 ^ 63) (rowTimes R key.recvNs (key :: rows)) := by
  obtain ⟨hdata, hcount, hok⟩ := remuxFrom_complete R hcancel hwrite key.recvNs
    (show units.length = (key :: rows).length from hlen) 0 (-2 ^ 63)
  obtain ⟨hpts, -⟩ := remuxFrom_pts R env key.recvNs units (key :: rows) 0 (-2 ^ 63)
  have hpackets : (remuxFrom R env key.recvNs units (key :: rows) 0 (-2 ^ 63)).packets.length =
      units.length := by
    simpa using congrArg List.length hdata
  have hrest : (readIndex index).rows.length - k = units.length := by
    simpa [hlen] using congrArg List.length hdrop
  have hrun : run R env index (some blob) =
      ((remuxFrom R env key.recvNs units (key :: rows) 0 (-2 ^ 63)).packets, true) := by
    have hguard : ¬((readIndex index).rows.length < 2 ∨
        2 ^ 63 ≤ (readIndex index).cutOffset.toNat) := by omega
    unfold run
    simp only [hkey, if_neg hguard, hdemux, hdrop, hrest, hopen, if_true, remux]
    rw [hcount, hok, hafter, Nat.zero_add, List.take_of_length_le (Nat.le_of_eq hpackets)]
    simp
  rw [hrun]
  refine ⟨rfl, hdata, ?_⟩
  rw [hpts, hpackets, List.take_of_length_le (by simp [rowTimes, hlen])]

theorem remux_pts (R : Rescale) (env : Env) (units : List (List UInt8)) {key : Row} {rows : List Row}
    (h : ∀ row ∈ key :: rows, InRange key.recvNs row.recvNs) :
    let packets := (remux R env units (key :: rows)).packets
    packets.map (·.pts) =
        pushUp (-2 ^ 63) ((arrivals R key.recvNs (key :: rows)).take packets.length) ∧
      ∀ p ∈ packets, p.dts = p.pts := by
  rw [← rowTimes_eq R h]
  exact remuxFrom_pts R env key.recvNs units (key :: rows) 0 _

/-- The first arrival is 0, as it is measured from itself. -/
theorem arrivals_head (R : Rescale) (key : Row) (rows : List Row) (n : Nat) :
    ∀ x ∈ ((arrivals R key.recvNs (key :: rows)).take n).head?, x = 0 := by
  intro x hx
  rw [List.head?_take] at hx
  split at hx
  · cases hx
  · have hx : (R.rescale (.ofInt (arrivalUs key.recvNs key.recvNs))).toInt = x :=
      Option.some.inj hx
    rw [← hx, arrivalUs, Int.sub_self, Int.zero_tdiv]
    exact R.zero

theorem lt_arrivals_head (R : Rescale) (key : Row) (rows : List Row) (n : Nat) :
    ∀ x ∈ ((arrivals R key.recvNs (key :: rows)).take n).head?, -2 ^ 63 < x := by
  intro x hx
  rw [arrivals_head R key rows n x hx]
  decide

/-- A time stamp is the greatest of the arrivals so far, moved up by one for each packet since. -/
theorem pts_isGreatest (R : Rescale) (env : Env) (units : List (List UInt8)) {key : Row}
    {rows : List Row} (h : ∀ row ∈ key :: rows, InRange key.recvNs row.recvNs) {i : Nat} {y : Int}
    (hy : y ∈ ((remux R env units (key :: rows)).packets.map (·.pts))[i]?) :
    IsGreatest {v : Int | ∃ j ≤ i, ∃ x ∈ ((arrivals R key.recvNs (key :: rows)).take
      (remux R env units (key :: rows)).packets.length)[j]?, v = x + (i - j : Int)} y := by
  rw [(remux_pts R env units h).1] at hy
  exact pushUp_isGreatest (lt_arrivals_head R key rows _) hy

/-- The time stamps fit an `int64_t`, however many rows a file can have. -/
theorem pts_lt (R : Rescale) (env : Env) (units : List (List UInt8)) {key : Row} {rows : List Row}
    (h : ∀ row ∈ key :: rows, InRange key.recvNs row.recvNs) {i : Nat} {y : Int}
    (hy : y ∈ ((remux R env units (key :: rows)).packets.map (·.pts))[i]?) : y < 2 ^ 50 + i := by
  obtain ⟨j, -, x, hx, rfl⟩ := (pts_isGreatest R env units h hy).1
  have := arrivals_lt R h x (List.mem_of_mem_take (List.mem_of_getElem? hx))
  omega

/-- **The time stamps.** Any rows from a first key frame on, with any arrivals within an `int64_t` of
it, any demuxed access units, any cancellation and any failing write. The `pts = dts` of the packets are
the least strictly increasing integers not before the arrivals: each is the greatest of the arrivals so
far, moved up by one for each packet since. None is negative, and arrivals that increase are kept. -/
theorem pts_least (R : Rescale) (env : Env) (units : List (List UInt8)) (key : Row) (rows : List Row)
    (h : ∀ row ∈ key :: rows, InRange key.recvNs row.recvNs) :
    let packets := (remux R env units (key :: rows)).packets
    let pts := packets.map (·.pts)
    let xs := (arrivals R key.recvNs (key :: rows)).take packets.length
    (∀ p ∈ packets, p.dts = p.pts) ∧
    IsLeastIncreasing xs pts ∧
    (∀ (i : Nat) (y : Int), y ∈ pts[i]? →
      IsGreatest {v : Int | ∃ j ≤ i, ∃ x ∈ xs[j]?, v = x + (i - j : Int)} y) ∧
    (∀ y ∈ pts, 0 ≤ y) ∧
    (xs.Pairwise (· < ·) → pts = xs) := by
  intro packets pts xs
  have hpts : pts = pushUp (-2 ^ 63) xs := (remux_pts R env units h).1
  have hbelow := lt_arrivals_head R key rows packets.length
  refine ⟨(remux_pts R env units h).2, ?_, fun i y hy => pts_isGreatest R env units h hy, ?_, ?_⟩
  · rw [hpts]
    exact pushUp_isLeastIncreasing hbelow
  · intro y hy
    rw [hpts] at hy
    have hfirst := head_le_of_mem_pushUp hy
    cases hxs : xs.head? with
    | none =>
      rw [List.head?_eq_none_iff.mp hxs] at hy
      cases hy
    | some x => exact arrivals_head R key rows _ x hxs ▸ hfirst x hxs
  · intro hinc
    rw [hpts]
    exact pushUp_eq_self hbelow hinc

/-- Arrivals after 0, 40, 40 and 20 ms. -/
theorem pts_least_burst :
    let rows : List Row := [⟨5000, 1⟩, ⟨40005000, 0⟩, ⟨40005999, 0⟩, ⟨20005000, 0⟩]
    let env : Env := ⟨fun _ => none, true, fun _ => false, false, fun _ => true⟩
    IsLeastIncreasing [0, 3600, 3600, 1800]
      ((remux .halfAway env [[1], [2], [3], [4]] rows).packets.map (·.pts)) := by
  intro rows env
  exact (pts_least .halfAway env [[1], [2], [3], [4]] ⟨5000, 1⟩
    [⟨40005000, 0⟩, ⟨40005999, 0⟩, ⟨20005000, 0⟩] (by decide)).2.1

end ExportColorToMp4
end Kist
