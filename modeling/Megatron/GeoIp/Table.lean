import Megatron.Corelib.Address
import Megatron.GeoIp.Networks

/-!
# The GeoIP table

`CapsGeoIP::init` makes one vector of the networks of two CSV files, sorts it by
the last address, and writes it to `geonets.bin`.  Where that file is there it
is read instead.

## Main results

* `readNets_eq` — a table that was written is read back.
* `Built.table` — what every table keeps, whichever way it came about.
-/

namespace Megatron.GeoIp

open Megatron.Corelib
open Megatron.Corelib.Cursor (Gives Kept getPN getPSTR getCount fill bind_ok)
open Megatron.Http
open Megatron.Lib

/-- `geoNetRec`. -/
structure GeoNetRec where
  startIp : Bytes
  endIp : Bytes
  lat : Int64
  lon : Int64
  deriving DecidableEq

/-- `CapsGeoIP::cmpGeo`. -/
def cmpGeo (a b : GeoNetRec) : Bool := a.endIp < b.endIp

/-- `operator<` of `geoNetRec`. -/
def GeoNetRec.lt (a b : GeoNetRec) : Bool := a.endIp < b.endIp

/-! ## The CSV files -/

/-- `std::getline` until the end; `line` is what was read of the line. -/
def linesFrom (line : Bytes) : Bytes → List Bytes
  | [] => if line = [] then [] else [line]
  | c :: s => if c = 10 then line :: linesFrom [] s else linesFrom (line ++ [c]) s

section

-- `degrees` is `atof(s) * 10000` as an `int64_t`.
variable (net : Inet) (stack : Vector UInt8 16) (degrees : Bytes → Int64)

/-- What a line adds to `geoNets`. -/
def readLine (isV4 : Bool) (geoNets : List GeoNetRec) (str : Bytes) : Option (List GeoNetRec) :=
  let v := splitString (text ",") str
  if v.length ≥ 3 ∧ v.getD 0 [] ≠ text "network" then
    let lat := degrees (v.getD (v.length - 3) [])
    let lon := degrees (v.getD (v.length - 2) [])
    (getIpRange net stack (v.getD 0 []) isV4).bind fun res =>
      some (geoNets ++ [⟨res.1, res.2, lat, lon⟩])
  else some geoNets

/-- The loop over a file; a file that cannot be opened has no lines. -/
def readFile (isV4 : Bool) (file : Option Bytes) (geoNets : List GeoNetRec) :
    Option (List GeoNetRec) :=
  (linesFrom [] (file.getD [])).foldlM (readLine net stack degrees isV4) geoNets

/-- The networks of the two files, in their order. -/
def readFiles (blocksIPv4 blocksIPv6 : Option Bytes) : Option (List GeoNetRec) :=
  (readFile net stack degrees true blocksIPv4 []).bind
    (readFile net stack degrees false blocksIPv6)

end

/-! ## `geonets.bin` -/

/-- `operator<<` of `geoNetRec`. -/
def writeRec (s : GeoNetRec) (b : OutBuffer) : Option OutBuffer :=
  (b.putPSTR s.startIp).bind fun b => (b.putPSTR s.endIp).bind fun b =>
    (b.putPN s.lat.toUInt64).bind fun b => b.putPN s.lon.toUInt64

/-- `o << geoNets`. -/
def writeNets (geoNets : List GeoNetRec) (o : OutBuffer) : Option OutBuffer :=
  (Ty.writeCount geoNets.length o).bind fun o => geoNets.foldlM (fun o s => writeRec s o) o

/-- `operator>>` of `geoNetRec`. -/
def readRec : In GeoNetRec := do
  let startIp ← getPSTR
  let endIp ← getPSTR
  let lat ← getPN
  let lon ← getPN
  return ⟨startIp, endIp, lat.toInt64, lon.toInt64⟩

/-- `in >> geoNets`; `granted` says whether there is memory for so many. -/
def readNets (granted : UInt32 → Bool) : In (List GeoNetRec) := do
  let n ← getCount
  if granted n then fill (fun v t => v ++ [t]) readRec n.toNat [] else throw .badAlloc

/-- The bytes of a record. -/
def GeoNetRec.put (s : GeoNetRec) : Bytes :=
  putPSTR s.startIp ++ (putPSTR s.endIp ++ (putPN s.lat.toUInt64 ++ putPN s.lon.toUInt64))

/-! ## The table -/

section

variable (net : Inet) (stack : Vector UInt8 16) (degrees : Bytes → Int64)

/-- The tables that `init` builds: the sorted networks of the CSV files, or what
it reads from the file that an earlier start has written. -/
inductive Built : List GeoNetRec → Prop
  | csv {blocksIPv4 blocksIPv6 : Option Bytes} {recs geoNets : List GeoNetRec}
      (hFiles : readFiles net stack degrees blocksIPv4 blocksIPv6 = some recs)
      (hPerm : geoNets.Perm recs) (hSort : geoNets.Pairwise fun a b => cmpGeo b a = false) :
      Built geoNets
  | file {written geoNets : List GeoNetRec} {o : OutBuffer} {fileBody : Object} {s : Cursor}
      {granted : UInt32 → Bool} (h : Built written) (hCount : written.length < 2 ^ 32)
      (hWrite : writeNets written OutBuffer.construct = some o)
      (hBody : o.asString.buffer.bytes = fileBody.val.map some)
      (hRead : readNets granted (Cursor.ofObject fileBody) = (.ok geoNets, s)) :
      Built geoNets

end

/-- A record has two addresses of one family, in order. -/
structure Proper (r : GeoNetRec) : Prop where
  le : r.startIp ≤ r.endIp
  length_startIp : r.startIp.length = r.endIp.length
  length_endIp : r.endIp.length = 4 ∨ r.endIp.length = 16

/-- What holds of every table: the networks are sorted by their last address. -/
structure Table (geoNets : List GeoNetRec) : Prop where
  proper : ∀ r ∈ geoNets, Proper r
  sorted : geoNets.Pairwise fun a b => a.endIp ≤ b.endIp

variable {net : Inet} {stack : Vector UInt8 16} {degrees : Bytes → Int64}

/-! ### What the CSV files give -/

theorem proper_readLine {isV4 : Bool} {geoNets geoNets' : List GeoNetRec} {str : Bytes}
    (h : readLine net stack degrees isV4 geoNets str = some geoNets')
    (hAll : ∀ r ∈ geoNets, Proper r) : ∀ r ∈ geoNets', Proper r := by
  unfold readLine at h
  simp only at h
  split at h
  · obtain ⟨⟨b, e⟩, hRange, hAdd⟩ := Option.bind_eq_some_iff.1 h
    obtain ⟨hBegin, hEnd, hLe⟩ := getIpRange_ordered hRange
    rw [← Option.some.inj hAdd, List.forall_mem_append, List.forall_mem_singleton]
    refine ⟨hAll, hLe, hBegin.trans hEnd.symm, ?_⟩
    rw [hEnd]
    unfold addrLength
    split
    · exact Or.inl rfl
    · exact Or.inr rfl
  · cases h
    exact hAll

theorem proper_foldlM {isV4 : Bool} (lines : List Bytes) :
    ∀ {geoNets geoNets' : List GeoNetRec},
      lines.foldlM (readLine net stack degrees isV4) geoNets = some geoNets' →
        (∀ r ∈ geoNets, Proper r) → ∀ r ∈ geoNets', Proper r := by
  induction lines with
  | nil =>
      intro geoNets geoNets' h hAll
      cases h
      exact hAll
  | cons line lines ih =>
      intro geoNets geoNets' h hAll
      rw [List.foldlM_cons] at h
      obtain ⟨next, hLine, hRest⟩ := Option.bind_eq_some_iff.1 h
      exact ih hRest (proper_readLine hLine hAll)

theorem proper_readFiles {blocksIPv4 blocksIPv6 : Option Bytes} {recs : List GeoNetRec}
    (h : readFiles net stack degrees blocksIPv4 blocksIPv6 = some recs) : ∀ r ∈ recs, Proper r := by
  obtain ⟨v4, h4, h6⟩ := Option.bind_eq_some_iff.1 h
  exact proper_foldlM _ h6 (proper_foldlM _ h4 fun r hr => absurd hr List.not_mem_nil)

/-! ### What the file gives -/

theorem writes_writeRec {s : GeoNetRec} (hs : Proper s) : Writes (writeRec s) s.put := by
  obtain ⟨-, hLength, hFamily⟩ := hs
  exact (writes_putPSTR (by omega)).bind
    ((writes_putPSTR (by omega)).bind ((writes_putPN _).bind (writes_putPN _)))

/-- A table is written, -/
theorem writes_writeNets {geoNets : List GeoNetRec} (hAll : ∀ r ∈ geoNets, Proper r) :
    Writes (writeNets geoNets) (Ty.putCount geoNets.length ++ geoNets.flatMap GeoNetRec.put) :=
  (writes_putPN _).bind (writes_foldlM fun r hr => writes_writeRec (hAll r hr))

theorem gives_readRec {r : GeoNetRec} (hr : Proper r) :
    Gives readRec r.put fun _ _ x => x = r := by
  obtain ⟨-, hLength, hFamily⟩ := hr
  have hStart : r.startIp.length < 2 ^ 64 := by omega
  have hEnd : r.endIp.length < 2 ^ 64 := by omega
  intro s tail hs hRest
  simp only [GeoNetRec.put, List.append_assoc] at hRest
  obtain ⟨_, s₁, hRun₁, hKept₁, hRest₁, rfl⟩ := Cursor.gives_getPSTR hStart s _ hs hRest
  obtain ⟨_, s₂, hRun₂, hKept₂, hRest₂, rfl⟩ :=
    Cursor.gives_getPSTR hEnd s₁ _ hKept₁.valid hRest₁
  obtain ⟨_, s₃, hRun₃, hKept₃, hRest₃, rfl⟩ := Cursor.gives_getPN _ s₂ _ hKept₂.valid hRest₂
  obtain ⟨_, s₄, hRun₄, hKept₄, hRest₄, rfl⟩ := Cursor.gives_getPN _ s₃ _ hKept₃.valid hRest₃
  refine ⟨r, s₄, ?_, ((hKept₁.trans hKept₂).trans hKept₃).trans hKept₄, hRest₄, rfl⟩
  rw [readRec, bind_ok hRun₁, bind_ok hRun₂, bind_ok hRun₃, bind_ok hRun₄]
  rfl

theorem eq_of_run {vs xs : List GeoNetRec} {lo hi : Nat}
    (h : Run (fun v _ _ x => x = v) lo hi vs xs) : xs = vs := by
  induction h with
  | nil _ => rfl
  | cons head _ ih => rw [head, ih]

/-- and is read back. -/
theorem readNets_eq {geoNets out : List GeoNetRec} (hAll : ∀ r ∈ geoNets, Proper r)
    (hCount : geoNets.length < 2 ^ 32) {granted : UInt32 → Bool} {d : Object} {s : Cursor}
    (hBody : d.val = Ty.putCount geoNets.length ++ geoNets.flatMap GeoNetRec.put)
    (hRead : readNets granted (Cursor.ofObject d) = (.ok out, s)) : out = geoNets := by
  have hRest : (Cursor.ofObject d).rest =
      Ty.putCount geoNets.length ++ (geoNets.flatMap GeoNetRec.put ++ []) := by
    rw [List.append_nil, ← hBody]
    rfl
  obtain ⟨n, s₁, hRun, hKept, hRest₁, hn⟩ :=
    Cursor.gives_getCount hCount _ _ (Cursor.valid_ofObject d) hRest
  obtain ⟨ys, s₂, hFill, -, -, xs, hXs, rfl⟩ :=
    Cursor.gives_fill (fun v t => v ++ [t]) geoNets [] (fun r hr => gives_readRec (hAll r hr))
      s₁ [] hKept.valid hRest₁
  have hSame : xs.foldl (fun v t => v ++ [t]) [] = geoNets := by
    rw [List.foldl_append_eq_append, List.nil_append, ← List.flatMap_def,
      List.flatMap_singleton', eq_of_run hXs]
  rw [readNets, bind_ok hRun, hn] at hRead
  split at hRead
  · rw [hFill, hSame] at hRead
    simpa using (Prod.mk.inj hRead).1.symm
  · cases hRead

theorem length_put_le {r : GeoNetRec} (hr : Proper r) : r.put.length ≤ 72 := by
  obtain ⟨-, hLength, hFamily⟩ := hr
  have hPN := OutBuffer.length_putPN_le
  have h₁ := hPN (UInt64.ofNat r.startIp.length)
  have h₂ := hPN (UInt64.ofNat r.endIp.length)
  have h₃ := hPN r.lat.toUInt64
  have h₄ := hPN r.lon.toUInt64
  simp only [GeoNetRec.put, putPSTR, List.length_append]
  omega

theorem length_putNets {geoNets : List GeoNetRec} (hAll : ∀ r ∈ geoNets, Proper r) :
    (Ty.putCount geoNets.length ++ geoNets.flatMap GeoNetRec.put).length ≤
      10 + 72 * geoNets.length := by
  have hCount := OutBuffer.length_putPN_le (UInt32.ofNat geoNets.length).toUInt64
  have hRecs : (geoNets.flatMap GeoNetRec.put).length ≤ 72 * geoNets.length := by
    clear hCount
    induction geoNets with
    | nil => exact Nat.zero_le _
    | cons r geoNets ih =>
        have hHead := length_put_le (hAll r List.mem_cons_self)
        have hTail := ih fun q hq => hAll q (List.mem_cons_of_mem r hq)
        rw [List.flatMap_cons, List.length_append, List.length_cons]
        omega
  rw [Ty.putCount, List.length_append]
  omega

/-! ### Every table -/

/-- A table from the file is the one that was written. -/
theorem Built.proper {geoNets : List GeoNetRec} (h : Built net stack degrees geoNets) :
    (∀ r ∈ geoNets, Proper r) ∧ geoNets.Pairwise fun a b => cmpGeo b a = false := by
  induction h with
  | csv hFiles hPerm hSort =>
      exact ⟨fun r hr => proper_readFiles hFiles r (hPerm.mem_iff.1 hr), hSort⟩
  | @file written geoNets o fileBody s granted _ hCount hWrite hBody hRead ih =>
      obtain ⟨hAll, hSort⟩ := ih
      have hLen := length_putNets hAll
      have hZero : OutBuffer.construct.curPos.toNat = 0 := rfl
      obtain ⟨o', hRun, hStored, hPos⟩ := writes_writeNets hAll _ proper_construct (by omega)
      rw [hZero, Nat.zero_add] at hPos
      obtain ⟨-, hOut⟩ := bytes_asString hStored hPos (by omega)
      rw [hRun] at hWrite
      obtain rfl := Option.some.inj hWrite
      have hSame := List.map_injective_iff.2 (Option.some_injective UInt8) (hBody.symm.trans hOut)
      rw [readNets_eq hAll hCount hSame hRead]
      exact ⟨hAll, hSort⟩

theorem Built.table {geoNets : List GeoNetRec} (h : Built net stack degrees geoNets) :
    Table geoNets where
  proper := h.proper.1
  sorted := h.proper.2.imp fun hNot => not_lt.1 (by simpa [cmpGeo] using hNot)

end Megatron.GeoIp
