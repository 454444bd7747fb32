import Megatron.Http.Numerals
import Megatron.Http.Request

/-!
# Parts of files

`HTTP::Service::send_other_from_disk_ext` answers with a file or with the part
of it that the `RANGE` header names.  The header is cut at every `'-'` and
`'='`, and five tests bring the two numbers between the ends of the file.

## Main results

* `rangeRight_iff` — the part lies in the file unless the second number is its size.
* `sendOtherFromDiskExt_exact` — when the part is the one that was asked for.
* `sendOtherFromDiskExt_suffix` — the last bytes of a file, and what is sent.
-/

namespace Megatron.Http

open Megatron.Corelib (Bytes)
open Megatron.Lib

/-- `atoll`; a `long long` is as long as a `long`. -/
def atoll (s : Bytes) : Int := strtol s

/-- `IoProtocol`, as far as it is asked here: how to open a file, and where its
end is. -/
structure IoProtocol where
  mOpen : Option (Bytes → Int) := none
  mSeek : Option (Int → Int64) := none

/-- `HTTP::Request::_fileresponse`; `offset` is where the file was left. -/
structure Fileresponse where
  hasRange : Bool := false
  headerSent : Bool := false
  writtenBytes : Int := 0
  startb : Int := 0
  endb : Int := 0
  contentLength : Int := 0
  fileName : Bytes := []
  extension : Bytes := []
  fd : Int := -1
  fileSize : Int := -1
  ioProtocol : IoProtocol := {}
  offset : Option Int := none

/-- What the function asks of the system and of the service: the files, the
clock and the texts of its dates, and the types of the extensions. -/
structure System where
  openFile : Bytes → Int
  lseek : Int → Int64
  time : Int
  datef : Int → Bytes
  mimeTypes : OrdMap Bytes Bytes

/-- A request that is answered with a file: `lastModified` is the service's, and
`written` is what went to the socket. -/
structure Sending where
  w : Request
  mLastIoTime : Int
  fileresponse : Option Fileresponse
  lastModified : OrdMap Bytes Int
  written : List Bytes

/-! ## The range -/

/-- The pieces of a `RANGE` header, from its first `'='` on. -/
def rangePieces (s : Bytes) : Option (List Bytes) :=
  (s.dropInfix? (text "=")).map fun (_, behind) => splitString (text "-=") (text "=" ++ behind)

/-- The numbers that the pieces write: a second one only of two. -/
def readPieces (v : List Bytes) (f : Fileresponse) : Fileresponse :=
  let f := match v with
    | a :: _ => { f with startb := atoll a }
    | [] => f
  match v with
  | [_, b] => { f with endb := atoll b }
  | _ => { f with endb := f.fileSize - 1 }

/-- The two numbers, before they are tested. -/
def readRange (range : Option Bytes) (f : Fileresponse) : Fileresponse :=
  match range with
  | none =>
      { f with startb := 0, endb := f.fileSize - 1, writtenBytes := 0, hasRange := false }
  | some s =>
      let f := { f with startb := 0, endb := f.fileSize - 1, hasRange := true }
      match rangePieces s with
      | none => f
      | some v => readPieces v f

/-- The tests, and the length. -/
def testRange (f : Fileresponse) : Fileresponse :=
  let f := if f.startb > f.fileSize ∨ f.startb < 0 then { f with startb := 0 } else f
  let f := if f.endb > f.fileSize ∨ f.endb < 0 then { f with endb := f.fileSize - 1 } else f
  let f := if f.endb < f.startb then { f with endb := f.fileSize - 1, startb := 0 } else f
  let f := if f.endb = 0 then { f with endb := f.fileSize - 1 } else f
  { f with contentLength := f.endb - f.startb + 1 }

/-! ## The answer -/

/-- `std::to_string`. -/
def toText (n : Int) : Bytes := text (toString n)

def notFound : Bytes :=
  text "HTTP/1.1 404 Not Found\r\nServer: nginx/1.2.6 (Ubuntu)\r\nConnection: close\r\n\r\n"

def internalError : Bytes :=
  text "HTTP/1.1 500 Internal Server Error\r\nServer: nginx/1.2.6 (Ubuntu)\r\nConnection: close\r\n\r\n"

/-- The lines of the head. -/
def headOf (sys : System) (f : Fileresponse) (lastModified : Int) (isKeepAlive : Bool)
    (exten : Bytes) : List Bytes :=
  [if f.hasRange then text "HTTP/1.1 206 Partial Content\r\n" else text "HTTP/1.1 200 OK\r\n",
    text "Server: nginx/1.2.6 (Ubuntu)\r\n",
    text "Date: " ++ sys.datef sys.time ++ crlf,
    match sys.mimeTypes.get? exten with
    | some mime => text "Content-Type: " ++ mime ++ crlf
    | none => text "Content-Type: text/plain\r\n",
    text "Content-length: " ++ toText f.contentLength ++ crlf,
    text "Last-Modified: " ++ sys.datef lastModified ++ crlf,
    if isKeepAlive then text "Connection: keep-alive\r\n" else text "Connection: close\r\n",
    if f.hasRange then
      text "Content-Range: bytes " ++ toText f.startb ++ text "-" ++ toText f.endb ++ text "/" ++
        toText f.fileSize ++ crlf
    else text "Accept-Ranges: bytes\r\n",
    crlf]

/-- The head goes out, and the file is left where the part begins. -/
def sendHead (sys : System) (exten : Bytes) (f : Fileresponse) (x : Sending) : Sending :=
  let (lastModified, container) := match x.lastModified.get? x.w.url with
    | some t => (t, x.lastModified)
    | none => (sys.time, x.lastModified.insert x.w.url sys.time)
  { x with
    fileresponse := some { f with headerSent := true, offset := some f.startb }
    lastModified := container
    written := x.written ++ headOf sys f lastModified x.w.isKeepAlive exten }

/-- `HTTP::Service::send_other_from_disk_ext`; `none` where `F` is a null
pointer, because the request had no `fileresponse` yet. -/
def sendOtherFromDiskExt (sys : System) (x : Sending) (fn exten : Bytes) :
    Option (Int × Sending) :=
  let x := { x with mLastIoTime := sys.time }
  match x.fileresponse with
  | none => none
  | some _ =>
      let f : Fileresponse := { fileName := fn, extension := exten }
      let f := { f with fd := (f.ioProtocol.mOpen.getD sys.openFile) fn }
      if f.fd = -1 then
        some (-1, { x with fileresponse := some f, written := x.written ++ [notFound] })
      else
        let f := { f with fileSize := ((f.ioProtocol.mSeek.getD sys.lseek) f.fd).toInt }
        if f.fileSize = -1 then
          some (-1, { x with fileresponse := some f, written := x.written ++ [internalError] })
        else
          let f := testRange (readRange (x.w.headers.get? (text "RANGE")) f)
          some (0, sendHead sys exten f x)

/-! ## What is asked for -/

/-- The part lies in a file of `n` bytes. -/
structure InFile (n : Nat) (f : Fileresponse) : Prop where
  startb_nonneg : 0 ≤ f.startb
  startb_le : f.startb ≤ f.endb
  endb_lt : f.endb < n
  contentLength_eq : f.contentLength = f.endb - f.startb + 1

/-- The single ranges of a file of `n` bytes, with the first and the last byte
that they ask for. -/
inductive Asks (n : Nat) : Bytes → Nat → Nat → Prop
  | between {s t : Bytes} {a b : Nat} (hs : Numeral s a) (ht : Numeral t b) (hLe : a ≤ b)
      (hLt : b < n) : Asks n (text "bytes=" ++ (s ++ 45 :: t)) a b
  | behind {s : Bytes} {a : Nat} (hs : Numeral s a) (hLt : a < n) :
      Asks n (text "bytes=" ++ (s ++ [45])) a (n - 1)
  | suffix {t : Bytes} {k : Nat} (ht : Numeral t k) (hPos : 0 < k) (hLe : k ≤ n) :
      Asks n (text "bytes=" ++ 45 :: t) (n - k) (n - 1)

/-- The part lies in the file, and it is the one that was asked for. -/
def RangeRight (n : Nat) (h : Bytes) (f : Fileresponse) : Prop :=
  InFile n f ∧ ∀ a b, Asks n h a b → f.startb = a ∧ f.endb = b

/-- The headers that a file of `n` bytes is served for as it should. -/
structure RangeFine (n : Nat) (h : Bytes) : Prop where
  /-- The second of two numbers is not the size. -/
  second : ∀ a b, rangePieces h = some [a, b] → atoll b ≠ n
  /-- The first byte alone is asked for only of a file that has no other. -/
  zero : ∀ s t, h = text "bytes=" ++ (s ++ 45 :: t) → Numeral s 0 → Numeral t 0 → n = 1
  /-- The last bytes that are asked for are the whole file or one half of it. -/
  suffix : ∀ t k, h = text "bytes=" ++ 45 :: t → Numeral t k → 0 < k → k ≤ n → k = n ∨ n = 2 * k

/-! ## The numbers of a header -/

variable {n : Nat} {h s t : Bytes} {f : Fileresponse}

theorem fileSize_readPieces (v : List Bytes) (f : Fileresponse) :
    (readPieces v f).fileSize = f.fileSize := by
  match v with
  | [] => rfl
  | [_] => rfl
  | [_, _] => rfl
  | _ :: _ :: _ :: _ => rfl

theorem readRange_pieces {v : List Bytes} (hPieces : rangePieces h = some v) (f : Fileresponse) :
    readRange (some h) f =
      readPieces v { f with startb := 0, endb := f.fileSize - 1, hasRange := true } := by
  simp only [readRange, hPieces]

@[simp] theorem fileSize_readRange (h : Bytes) (f : Fileresponse) :
    (readRange (some h) f).fileSize = f.fileSize := by
  cases hPieces : rangePieces h with
  | none => simp only [readRange, hPieces]
  | some v => rw [readRange_pieces hPieces, fileSize_readPieces]

/-- Without a second number the part goes to the end of the file. -/
theorem endb_readRange (h : Bytes) (f : Fileresponse) :
    (readRange (some h) f).endb = f.fileSize - 1 ∨
      ∃ a b, rangePieces h = some [a, b] ∧ (readRange (some h) f).endb = atoll b := by
  cases hPieces : rangePieces h with
  | none =>
      left
      simp only [readRange, hPieces]
  | some v =>
      rw [readRange_pieces hPieces]
      match v with
      | [] => exact Or.inl rfl
      | [_] => exact Or.inl rfl
      | [a, b] => exact Or.inr ⟨a, b, rfl, rfl⟩
      | _ :: _ :: _ :: _ => exact Or.inl rfl

theorem rangePieces_bytes (s : Bytes) :
    rangePieces (text "bytes=" ++ s) = some (splitString (text "-=") s) := by
  have hText : text "bytes=" ++ s = text "bytes" ++ 61 :: s := by
    rw [show text "bytes=" = text "bytes" ++ [61] by decide +kernel]
    simp
  have hCut : (text "bytes=" ++ s).dropInfix? (text "=") = some (text "bytes", s) := by
    rw [hText, show text "=" = [61] by decide +kernel]
    exact dropInfix?_singleton (by decide +kernel)
  rw [rangePieces, hCut]
  simp [splitString, splitFrom, show text "=" = [61] by decide +kernel,
    show text "-=" = [45, 61] by decide +kernel]

theorem splitString_numeral_range {a : Nat} (hs : Numeral s a) :
    splitString (text "-=") (s ++ 45 :: t) = s :: splitString (text "-=") t ∧
      splitString (text "-=") s = [s] := by
  have hSeps : ∀ c ∈ text "-=", isDigit c = false := by decide +kernel
  have hFree : ∀ c ∈ s, c ∉ text "-=" := fun c hc hSep => hs.notMem (hSeps c hSep) hc
  exact ⟨splitString_append hs.ne_nil hFree (by decide +kernel), splitString_self hs.ne_nil hFree⟩

/-- What the three forms of a range write. -/
theorem readRange_between {a b : Nat} (hs : Numeral s a) (ht : Numeral t b) (f : Fileresponse) :
    (readRange (some (text "bytes=" ++ (s ++ 45 :: t))) f).startb = atoll s ∧
      (readRange (some (text "bytes=" ++ (s ++ 45 :: t))) f).endb = atoll t := by
  have hPieces : rangePieces (text "bytes=" ++ (s ++ 45 :: t)) = some [s, t] := by
    rw [rangePieces_bytes, (splitString_numeral_range hs).1, (splitString_numeral_range (t := []) ht).2]
  rw [readRange_pieces hPieces]
  exact ⟨rfl, rfl⟩

theorem readRange_behind {a : Nat} (hs : Numeral s a) (f : Fileresponse) :
    (readRange (some (text "bytes=" ++ (s ++ [45]))) f).startb = atoll s ∧
      (readRange (some (text "bytes=" ++ (s ++ [45]))) f).endb = f.fileSize - 1 := by
  have hPieces : rangePieces (text "bytes=" ++ (s ++ [45])) = some [s] := by
    rw [rangePieces_bytes, (splitString_numeral_range hs).1]
    rfl
  rw [readRange_pieces hPieces]
  exact ⟨rfl, rfl⟩

theorem readRange_suffix {k : Nat} (ht : Numeral t k) (f : Fileresponse) :
    (readRange (some (text "bytes=" ++ 45 :: t)) f).startb = atoll t ∧
      (readRange (some (text "bytes=" ++ 45 :: t)) f).endb = f.fileSize - 1 := by
  have hPieces : rangePieces (text "bytes=" ++ 45 :: t) = some [t] := by
    have hSelf := (splitString_numeral_range (t := []) ht).2
    rw [rangePieces_bytes, ← hSelf]
    simp [splitString, splitFrom, show text "-=" = [45, 61] by decide +kernel]
  rw [readRange_pieces hPieces]
  exact ⟨rfl, rfl⟩

/-! ## The tests -/

section Tests

variable (hSize : f.fileSize = n)

include hSize

/-- A part of the file stays, if it ends behind the first byte. -/
theorem testRange_same (hStart : 0 ≤ f.startb) (hLe : f.startb ≤ f.endb) (hPos : 0 < f.endb)
    (hLt : f.endb < n) : (testRange f).startb = f.startb ∧ (testRange f).endb = f.endb := by
  unfold testRange
  grind

variable (hn : 0 < n)

include hn

/-- An end that is not the size is brought into the file, and the beginning
with it. -/
theorem inFile_testRange (hEnd : f.endb ≠ n) : InFile n (testRange f) := by
  have hEnds : 0 ≤ (testRange f).startb ∧ (testRange f).startb ≤ (testRange f).endb ∧
      (testRange f).endb < n := by
    unfold testRange
    grind
  exact ⟨hEnds.1, hEnds.2.1, hEnds.2.2, rfl⟩

/-- An end that is the size stays. -/
theorem endb_testRange_size (hEnd : f.endb = n) : (testRange f).endb = n := by
  unfold testRange
  grind

/-- The first byte alone becomes the whole file. -/
theorem testRange_zero (hStart : f.startb = 0) (hEnd : f.endb = 0) :
    (testRange f).startb = 0 ∧ (testRange f).endb = n - 1 := by
  unfold testRange
  grind

/-- What begins behind the end becomes the whole file. -/
theorem testRange_all (hStart : f.startb = n) (hEnd : f.endb = n - 1) :
    (testRange f).startb = 0 ∧ (testRange f).endb = n - 1 := by
  unfold testRange
  grind

end Tests

theorem atoll_numeral {a : Nat} (hs : Numeral s a) (ha : a < 2 ^ 63) : atoll s = a := hs.strtol_eq ha

section Header

variable (hSize : f.fileSize = n) (hn : 0 < n) (hMax : n < 2 ^ 63)

include hSize hn hMax

/-- A header whose part is not in the file, or not the one that is asked for, is
not fine. -/
theorem RangeRight.rangeFine (hRight : RangeRight n h (testRange (readRange (some h) f))) :
    RangeFine n h := by
  have hSize' : (readRange (some h) f).fileSize = n := by rw [fileSize_readRange, hSize]
  obtain ⟨hIn, hAsks⟩ := hRight
  refine ⟨fun a b hPieces hb => ?_, fun s t hText hs ht => ?_, fun t k hText ht hPos hLe => ?_⟩
  · have hEnd : (readRange (some h) f).endb = n := by
      rw [readRange_pieces hPieces]
      exact hb
    have hLt := hIn.endb_lt
    rw [endb_testRange_size hSize' hn hEnd] at hLt
    omega
  · subst hText
    obtain ⟨hStart, hEnd⟩ := readRange_between hs ht f
    rw [atoll_numeral hs (by decide)] at hStart
    rw [atoll_numeral ht (by decide)] at hEnd
    have hAll := (testRange_zero hSize' hn hStart hEnd).2
    have hFirst := (hAsks 0 0 (.between hs ht (le_refl 0) hn)).2
    omega
  · subst hText
    obtain ⟨hStart, hEnd⟩ := readRange_suffix ht f
    rw [atoll_numeral ht (by omega)] at hStart
    have hLast := (hAsks _ _ (.suffix ht hPos hLe)).1
    rcases Nat.eq_or_lt_of_le hLe with hWhole | hLess
    · exact Or.inl hWhole
    · have hSame := (testRange_same hSize' (by omega) (by omega) (by omega) (by omega)).1
      omega

/-- A header that is fine has its part. -/
theorem RangeFine.rangeRight (hFine : RangeFine n h) :
    RangeRight n h (testRange (readRange (some h) f)) := by
  have hSize' : (readRange (some h) f).fileSize = n := by rw [fileSize_readRange, hSize]
  have hEnd : (readRange (some h) f).endb ≠ n := by
    rcases endb_readRange h f with hLast | ⟨a, b, hPieces, hb⟩
    · omega
    · rw [hb]
      exact hFine.second a b hPieces
  refine ⟨inFile_testRange hSize' hn hEnd, fun a b hAsks => ?_⟩
  cases hAsks with
  | between hs ht hLe hLt =>
      obtain ⟨hStart, hEnd⟩ := readRange_between hs ht f
      rw [atoll_numeral hs (by omega)] at hStart
      rw [atoll_numeral ht (by omega)] at hEnd
      rcases Nat.eq_zero_or_pos b with rfl | hPos
      · obtain rfl : a = 0 := by omega
        have hOne := hFine.zero _ _ rfl hs ht
        have hZero := testRange_zero hSize' hn hStart hEnd
        omega
      · have hSame := testRange_same hSize' (by omega) (by omega) (by omega) (by omega)
        omega
  | behind hs hLt =>
      obtain ⟨hStart, hEnd⟩ := readRange_behind hs f
      rw [atoll_numeral hs (by omega)] at hStart
      rcases Nat.eq_or_lt_of_le hn with hOne | hMore
      · have hZero := testRange_zero hSize' hn (by omega) (by omega)
        omega
      · have hSame := testRange_same hSize' (by omega) (by omega) (by omega) (by omega)
        omega
  | suffix ht hPos hLe =>
      obtain ⟨hStart, hEnd⟩ := readRange_suffix ht f
      rw [atoll_numeral ht (by omega)] at hStart
      rcases hFine.suffix _ _ rfl ht hPos hLe with hWhole | hHalf
      · have hAll := testRange_all hSize' hn (by omega) (by omega)
        omega
      · have hSame := testRange_same hSize' (by omega) (by omega) (by omega) (by omega)
        omega

/-- The numbers of a header, tested, are right for the headers that are fine. -/
theorem rangeRight_iff :
    RangeRight n h (testRange (readRange (some h) f)) ↔ RangeFine n h :=
  ⟨RangeRight.rangeFine hSize hn hMax, RangeFine.rangeRight hSize hn hMax⟩

end Header

/-! ## The function -/

theorem fileSize_testRange (f : Fileresponse) : (testRange f).fileSize = f.fileSize := by
  simp only [testRange]
  split_ifs <;> rfl

/-- A file that is there is answered with, from the tested numbers on. -/
theorem sendOtherFromDiskExt_found {sys : System} {x : Sending} {fn : Bytes} {n : Nat}
    (exten : Bytes) (hF : x.fileresponse.isSome) (hOpen : sys.openFile fn ≠ -1)
    (hSize : (sys.lseek (sys.openFile fn)).toInt = n) :
    ∃ f : Fileresponse, f.fileSize = n ∧ sendOtherFromDiskExt sys x fn exten =
      some (0, sendHead sys exten (testRange (readRange (x.w.headers.get? (text "RANGE")) f))
        { x with mLastIoTime := sys.time }) := by
  obtain ⟨old, hOld⟩ := Option.isSome_iff_exists.1 hF
  let f : Fileresponse :=
    { fileName := fn, extension := exten, fd := sys.openFile fn
      fileSize := (sys.lseek (sys.openFile fn)).toInt }
  have hSome : f.fileSize ≠ -1 := by
    show (sys.lseek (sys.openFile fn)).toInt ≠ -1
    omega
  refine ⟨f, hSize, ?_⟩
  unfold sendOtherFromDiskExt
  simp only [hOld]
  rw [if_neg (by exact hOpen), if_neg (by exact hSome)]
  rfl

/-- **The part of a file** lies in it, and is the one that was asked for,
exactly for the headers that are fine. -/
theorem sendOtherFromDiskExt_exact {sys : System} {x : Sending} {fn exten h : Bytes} {n : Nat}
    (hF : x.fileresponse.isSome) (hOpen : sys.openFile fn ≠ -1)
    (hSize : (sys.lseek (sys.openFile fn)).toInt = n) (hn : 0 < n)
    (hRange : x.w.headers.get? (text "RANGE") = some h) :
    ∃ x' f, sendOtherFromDiskExt sys x fn exten = some (0, x') ∧ x'.fileresponse = some f ∧
      f.fileSize = n ∧ (RangeRight n h f ↔ RangeFine n h) := by
  obtain ⟨f, hFile, hRun⟩ := sendOtherFromDiskExt_found exten hF hOpen hSize
  have hMax : n < 2 ^ 63 := by
    have hLt := (sys.lseek (sys.openFile fn)).toInt_lt
    omega
  rw [hRange] at hRun
  refine ⟨_, _, hRun, rfl, ?_, ?_⟩
  · show (testRange (readRange (some h) f)).fileSize = n
    rw [fileSize_testRange, fileSize_readRange, hFile]
  · rw [← rangeRight_iff hFile hn hMax]
    -- the head and the offset have no part in it
    exact ⟨fun hRight => ⟨⟨hRight.1.1, hRight.1.2, hRight.1.3, hRight.1.4⟩, hRight.2⟩,
      fun hRight => ⟨⟨hRight.1.1, hRight.1.2, hRight.1.3, hRight.1.4⟩, hRight.2⟩⟩

/-! ## A file of ten bytes -/

def tenBytes : System where
  openFile _ := 3
  lseek _ := 10
  time := 0
  datef _ := []
  mimeTypes := ∅

def asking (h : Bytes) : Sending where
  w := { headers := (∅ : OrdMap Bytes Bytes).insert (text "RANGE") h }
  mLastIoTime := 0
  fileresponse := some {}
  lastModified := ∅
  written := []

theorem get?_asking (h : Bytes) : (asking h).w.headers.get? (text "RANGE") = some h :=
  OrdMap.get?_insert_self _ _ _

theorem size_tenBytes (fn : Bytes) : (tenBytes.lseek (tenBytes.openFile fn)).toInt = (10 : Nat) := by
  show (10 : Int64).toInt = 10
  decide

/-- Asked for its last three bytes, it is answered with all but the first three. -/
theorem sendOtherFromDiskExt_suffix :
    ∃ x' f, sendOtherFromDiskExt tenBytes (asking (text "bytes=-3")) (text "f") (text "txt") =
        some (0, x') ∧ x'.fileresponse = some f ∧ f.startb = 3 ∧ f.endb = 9 ∧
      ¬ RangeRight 10 (text "bytes=-3") f := by
  have hThree : Numeral [51] 3 := ⟨by decide, by decide +kernel, rfl⟩
  have hText : text "bytes=-3" = text "bytes=" ++ 45 :: [51] := by decide +kernel
  have hF : (asking (text "bytes=-3")).fileresponse.isSome := rfl
  have hOpen : tenBytes.openFile (text "f") ≠ -1 := by decide
  obtain ⟨f, hSize, hRun⟩ :=
    sendOtherFromDiskExt_found (text "txt") hF hOpen (size_tenBytes (text "f"))
  rw [get?_asking, hText] at hRun
  rw [hText]
  obtain ⟨hStart, hEnd⟩ := readRange_suffix hThree f
  rw [atoll_numeral hThree (by decide)] at hStart
  have hSize' : (readRange (some (text "bytes=" ++ 45 :: [51])) f).fileSize = (10 : Nat) := by
    rw [fileSize_readRange, hSize]
  obtain ⟨hFirst, hLast⟩ :=
    testRange_same hSize' (by omega) (by omega) (by omega) (by omega)
  rw [hStart] at hFirst
  rw [hEnd, hSize] at hLast
  refine ⟨_, _, hRun, rfl, hFirst, hLast, fun hRight => ?_⟩
  have hAsked := (hRight.2 7 9 (.suffix hThree (by decide) (by decide))).1
  exact absurd (hFirst.symm.trans hAsked) (by decide)

theorem sendOtherFromDiskExt_exact_ten :
    (asking (text "bytes=2-5")).fileresponse.isSome ∧ tenBytes.openFile (text "f") ≠ -1 ∧
      ∃ x' f, sendOtherFromDiskExt tenBytes (asking (text "bytes=2-5")) (text "f") (text "txt") =
          some (0, x') ∧ x'.fileresponse = some f ∧ f.fileSize = (10 : Nat) ∧
        (RangeRight 10 (text "bytes=2-5") f ↔ RangeFine 10 (text "bytes=2-5")) :=
  ⟨rfl, by decide, sendOtherFromDiskExt_exact rfl (by decide) (size_tenBytes _) (by decide)
    (get?_asking _)⟩

end Megatron.Http
