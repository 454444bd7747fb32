import Mathlib.Data.List.DropRight
import Megatron.Corelib.IoBuffer
import Megatron.Lib.Search

/-!
# URLs

`Url::parse` cuts a text at the delimiters of its parts: `"://"` behind the
protocol, `'/'` behind the host, `'@'` behind the user, `':'` in front of the
password and of the port, `'?'` in front of the parameters.  An IPv6 address
stands in brackets, and a `':'` in them ends nothing.  A text without a path
goes through a second copy of the code.

## Main results

* `findPortOnly_eq` — the two copies of the loop over the host find the same.
* `parse_rendered` — the components that a text was made of are read back.
-/

namespace Megatron.Corelib

open Megatron.Lib

/-! ## The delimiters -/

def slash : UInt8 := 47

def colon : UInt8 := 58

def question : UInt8 := 63

def atSign : UInt8 := 64

def skobka : UInt8 := 91

def skobkaEnd : UInt8 := 93

/-- `"://"`. -/
def schemeEnd : Bytes := [colon, slash, slash]

/-- `rfind`, and the two `substr` around what it finds. -/
def rfind (c : UInt8) (s : Bytes) : Option (Bytes × Bytes) :=
  (s.reverse.dropInfix? [c]).map fun (after, before) => (before.reverse, after.reverse)

/-! ## `Url` -/

structure Url where
  protocol : Bytes := []
  host : Bytes := []
  hostPort : Bytes := []
  path : Bytes := []
  filename : Bytes := []
  dirname : Bytes := []
  params : Bytes := []
  user : Bytes := []
  pass : Bytes := []
  port : Bytes := []
  deriving DecidableEq

namespace Url

/-- `Url::clear`, which leaves `host_port` and `dirname` as they are. -/
def clear (x : Url) : Url :=
  { x with
    protocol := [], host := [], path := [], params := [], user := [], pass := [], port := []
    filename := [] }

/-- The part up to `"://"`; with it what is left to read. -/
def parseProtocol (u : Bytes) (x : Url) : Url × Bytes :=
  match u.dropInfix? schemeEnd with
  | some (protocol, rest) => ({ x with protocol := protocol }, rest)
  | none => (x, u)

/-- The part of `hostmax` up to the `'@'`; with it what is left to read. -/
def parseUser (hostmax : Bytes) (x : Url) : Url × Bytes :=
  match hostmax.dropInfix? [atSign] with
  | some (lp, rest) =>
      match lp.dropInfix? [colon] with
      | some (user, pass) => ({ x with user := user, pass := pass }, rest)
      | none => ({ x with user := lp }, rest)
  | none => (x, hostmax)

/-- The loop over the host in a text with a path: what is in front of the first
`':'` outside of brackets, and what is behind it. -/
def findPort (inSkobka : Bool) : Bytes → Option (Bytes × Bytes)
  | [] => none
  | c :: s =>
      let inSkobka := if c = skobka then true else inSkobka
      let inSkobka := if c = skobkaEnd then false else inSkobka
      if !inSkobka && c = colon then some ([], s)
      else (findPort inSkobka s).map fun (host, port) => (c :: host, port)

/-- The loop over the host in a text without a path. -/
def findPortOnly (inSkobka : Bool) : Bytes → Option (Bytes × Bytes)
  | [] => none
  | c :: s =>
      if c = skobka then (findPortOnly true s).map fun (host, port) => (c :: host, port)
      else if c = skobkaEnd then (findPortOnly false s).map fun (host, port) => (c :: host, port)
      else if !inSkobka && c = colon then some ([], s)
      else (findPortOnly inSkobka s).map fun (host, port) => (c :: host, port)

/-- What either copy does with what its loop found in `s`. -/
def parseHost (find : Bytes → Option (Bytes × Bytes)) (s : Bytes) (x : Url) : Url :=
  match find s with
  | some (host, port) => { x with host := host, port := port, hostPort := s }
  | none => { x with host := s, hostPort := s }

/-- The path and the parameters, from the first `'/'` on. -/
def parsePath (s : Bytes) (x : Url) : Url :=
  let x := match s.dropInfix? [question] with
    | some (path, params) => { x with path := path, params := params }
    | none => { x with path := s }
  match rfind slash x.path with
  | some (dirname, filename) => { x with filename := filename, dirname := dirname }
  | none => x

/-- The host without the brackets around it. -/
def stripSkobka (x : Url) : Url :=
  if x.host.head? = some skobka ∧ x.host.getLast? = some skobkaEnd then
    { x with host := (x.host.drop 1).take (x.host.length - 2) }
  else x

/-- `Url::parse`. -/
def parse (u : Bytes) (x : Url) : Url :=
  let (x, u) := parseProtocol u x.clear
  match u.dropInfix? [slash] with
  | some (hostmax, rest) =>
      let (x, s) := parseUser hostmax x
      stripSkobka (parsePath (slash :: rest) (parseHost (findPort false) s x))
  | none =>
      let (x, s) := parseUser u x
      stripSkobka (parseHost (findPortOnly false) s x)

theorem findPortOnly_eq (inSkobka : Bool) (s : Bytes) :
    findPortOnly inSkobka s = findPort inSkobka s := by
  induction s generalizing inSkobka with
  | nil => rfl
  | cons c s ih =>
      unfold findPortOnly findPort
      -- a bracket is no `':'`, so that the `continue` behind it skips nothing
      by_cases hOpen : c = skobka
      · simp [hOpen, ih, skobka, skobkaEnd, colon]
      · by_cases hClose : c = skobkaEnd
        · simp [hClose, ih, skobka, skobkaEnd, colon]
        · simp [hOpen, hClose, ih]

end Url

/-! ## Components -/

/-- A host as a text may give it: a name or an IPv4 address, or an IPv6 address
in brackets. -/
inductive Url.Host where
  | name (s : Bytes)
  | ipv6 (s : Bytes)
  deriving DecidableEq

/-- What a text may be made of. -/
structure Url.Components where
  protocol : Option Bytes := none
  user : Option (Bytes × Option Bytes) := none
  host : Url.Host
  port : Option Bytes := none
  path : Option (Bytes × Option Bytes) := none
  deriving DecidableEq

namespace Url

namespace Host

/-- The host without brackets. -/
def bare : Host → Bytes
  | name s => s
  | ipv6 s => s

def rendered : Host → Bytes
  | name s => s
  | ipv6 s => skobka :: s ++ [skobkaEnd]

end Host

namespace Components

variable (c : Components)

/-- The host and the port behind a `':'`. -/
def hostPort : Bytes :=
  c.host.rendered ++ c.port.elim [] fun port => colon :: port

/-- A component behind the delimiter that is written only with it. -/
def userText : Option (Bytes × Option Bytes) → Bytes
  | none => []
  | some (user, pass) => user ++ (pass.elim [] fun pass => colon :: pass) ++ [atSign]

def pathText : Option (Bytes × Option Bytes) → Bytes
  | none => []
  | some (path, params) => path ++ params.elim [] fun params => question :: params

/-- The text of the components. -/
def rendered : Bytes :=
  (c.protocol.elim [] fun protocol => protocol ++ schemeEnd) ++
    (userText c.user ++ c.hostPort ++ pathText c.path)

/-- The components are free of the delimiters that end them, a path begins with
`'/'`, and `"://"` is nowhere but behind the protocol. -/
structure Clean : Prop where
  protocol : ∀ p r, c.rendered = p ++ schemeEnd ++ r → c.protocol = some p
  user : ∀ user pass, c.user = some (user, pass) → colon ∉ user ∧ atSign ∉ user ∧ slash ∉ user
  pass : ∀ user pass, c.user = some (user, some pass) → atSign ∉ pass ∧ slash ∉ pass
  name : ∀ s, c.host = .name s →
    colon ∉ s ∧ atSign ∉ s ∧ slash ∉ s ∧ skobka ∉ s ∧ skobkaEnd ∉ s
  ipv6 : ∀ s, c.host = .ipv6 s → skobkaEnd ∉ s ∧ atSign ∉ s ∧ slash ∉ s
  port : ∀ port, c.port = some port → atSign ∉ port ∧ slash ∉ port
  path : ∀ path params, c.path = some (path, params) → path.head? = some slash ∧ question ∉ path

/-- What a path is in front of its last `'/'`. -/
def dirname (path : Bytes) : Bytes := (path.rdropWhile (· ≠ slash)).dropLast

/-- What a path is behind its last `'/'`. -/
def filename (path : Bytes) : Bytes := path.rtakeWhile (· ≠ slash)

/-- The URL of the components, absent ones empty. -/
def url : Url where
  protocol := c.protocol.getD []
  host := c.host.bare
  hostPort := c.hostPort
  path := c.path.elim [] fun (path, _) => path
  filename := c.path.elim [] fun (path, _) => filename path
  dirname := c.path.elim [] fun (path, _) => dirname path
  params := c.path.elim [] fun (_, params) => params.getD []
  user := c.user.elim [] fun (user, _) => user
  pass := c.user.elim [] fun (_, pass) => pass.getD []
  port := c.port.getD []

/-! ## The parts are read back -/

theorem exists_lastSlash {path : Bytes} (h : path.head? = some slash) :
    ∃ dir file, path = dir ++ slash :: file ∧ slash ∉ file := by
  have hMem : slash ∈ path.reverse := List.mem_reverse.2 (List.mem_of_mem_head? h)
  obtain ⟨after, before, hEq, hNot⟩ := List.eq_append_cons_of_mem hMem
  refine ⟨before.reverse, after.reverse, ?_, by simpa using hNot⟩
  rw [← List.reverse_reverse path, hEq]
  simp

section LastSlash

variable {dir file : Bytes} (h : slash ∉ file)

include h

theorem rfind_slash : rfind slash (dir ++ slash :: file) = some (dir, file) := by
  have hRev : (dir ++ slash :: file).reverse = file.reverse ++ slash :: dir.reverse := by simp
  rw [rfind, hRev, dropInfix?_singleton (by simpa using h)]
  simp

theorem dirname_append : dirname (dir ++ slash :: file) = dir := by
  have hAll : ∀ c ∈ file.reverse, decide (c ≠ slash) = true := by
    intro c hc
    simpa using fun hEq : c = slash => h (by simpa [hEq] using hc)
  unfold dirname List.rdropWhile
  rw [List.reverse_append, List.reverse_cons, List.append_assoc, List.dropWhile_append_of_pos hAll]
  simp

theorem filename_append : filename (dir ++ slash :: file) = file := by
  have hAll : ∀ c ∈ file.reverse, decide (c ≠ slash) = true := by
    intro c hc
    simpa using fun hEq : c = slash => h (by simpa [hEq] using hc)
  unfold filename List.rtakeWhile
  rw [List.reverse_append, List.reverse_cons, List.append_assoc, List.takeWhile_append_of_pos hAll]
  simp

end LastSlash

theorem parsePath_pathText {path : Bytes} {params : Option Bytes} (x : Url)
    (hSlash : path.head? = some slash) (hFree : question ∉ path) (hParams : x.params = []) :
    parsePath (pathText (some (path, params))) x =
      { x with
        path := path, params := params.getD [], filename := filename path
        dirname := dirname path } := by
  obtain ⟨dir, file, rfl, hFile⟩ := exists_lastSlash hSlash
  rw [dirname_append hFile, filename_append hFile]
  cases params with
  | none =>
      have hNone := dropInfix?_singleton_eq_none.2 hFree
      simp [parsePath, pathText, hNone, rfind_slash hFile, hParams]
  | some params =>
      have hCut : (dir ++ slash :: file ++ question :: params).dropInfix? [question] =
          some (dir ++ slash :: file, params) := dropInfix?_singleton hFree
      simp only [parsePath, pathText, Option.elim_some, hCut, rfind_slash hFile, Option.getD_some]

theorem parseUser_userText {user : Option (Bytes × Option Bytes)} {rest : Bytes} (x : Url)
    (hUser : ∀ name pass, user = some (name, pass) → colon ∉ name ∧ atSign ∉ name)
    (hPass : ∀ name pass, user = some (name, some pass) → atSign ∉ pass)
    (hRest : atSign ∉ rest) (hNoUser : x.user = []) (hNoPass : x.pass = []) :
    parseUser (userText user ++ rest) x =
      ({ x with
          user := user.elim [] fun (name, _) => name
          pass := user.elim [] fun (_, pass) => pass.getD [] }, rest) := by
  match user with
  | none =>
      cases x
      subst hNoUser hNoPass
      simp [parseUser, userText, dropInfix?_singleton_eq_none.2 hRest]
  | some (name, none) =>
      obtain ⟨hColon, hAt⟩ := hUser name none rfl
      have hCut : (name ++ atSign :: rest).dropInfix? [atSign] = some (name, rest) :=
        dropInfix?_singleton hAt
      simp [parseUser, userText, hCut, dropInfix?_singleton_eq_none.2 hColon, hNoPass]
  | some (name, some pass) =>
      obtain ⟨hColon, hAt⟩ := hUser name (some pass) rfl
      have hNotAt : atSign ∉ name ++ colon :: pass := by
        have hOther : atSign ≠ colon := by decide
        simp [hAt, hPass name pass rfl, hOther]
      have hCut : (name ++ colon :: (pass ++ atSign :: rest)).dropInfix? [atSign] =
          some (name ++ colon :: pass, rest) := by
        simpa using dropInfix?_singleton (r := rest) hNotAt
      have hInner : (name ++ colon :: pass).dropInfix? [colon] = some (name, pass) :=
        dropInfix?_singleton hColon
      simp [parseUser, userText, hCut, hInner]

/-! ## The host and the port -/

theorem findPort_name {s : Bytes} (t : Bytes)
    (h : colon ∉ s ∧ skobka ∉ s ∧ skobkaEnd ∉ s) :
    findPort false (s ++ t) = (findPort false t).map fun (host, port) => (s ++ host, port) := by
  induction s with
  | nil => simp
  | cons c s ih =>
      simp only [List.mem_cons, not_or, eq_comm (b := c)] at h
      obtain ⟨⟨hColon, h1⟩, ⟨hOpen, h2⟩, ⟨hClose, h3⟩⟩ := h
      rw [List.cons_append, findPort]
      simp [hColon, hOpen, hClose, ih ⟨h1, h2, h3⟩, Option.map_map, Function.comp_def]

/-- No `':'` in the brackets ends the host. -/
theorem findPort_inSkobka {s : Bytes} (t : Bytes) (h : skobkaEnd ∉ s) :
    findPort true (s ++ skobkaEnd :: t) =
      (findPort false t).map fun (host, port) => (s ++ skobkaEnd :: host, port) := by
  induction s with
  | nil => simp [findPort, skobkaEnd, colon]
  | cons c s ih =>
      simp only [List.mem_cons, not_or, eq_comm (b := c)] at h
      rw [List.cons_append, findPort]
      simp [h.1, ih h.2, Option.map_map, Function.comp_def]

variable {c}

theorem findPort_hostPort (h : c.Clean) :
    findPort false c.hostPort = c.port.map fun port => (c.host.rendered, port) := by
  have hPort : findPort false (c.port.elim [] fun port => colon :: port) =
      c.port.map fun port => ([], port) := by
    cases c.port with
    | none => rfl
    | some port => simp [findPort, skobka, skobkaEnd, colon]
  unfold hostPort
  cases hHost : c.host with
  | name s =>
      obtain ⟨hColon, -, -, hOpen, hClose⟩ := h.name s hHost
      rw [Host.rendered, findPort_name _ ⟨hColon, hOpen, hClose⟩, hPort]
      simp [Option.map_map, Function.comp_def]
  | ipv6 s =>
      have hIn := findPort_inSkobka (c.port.elim [] fun port => colon :: port)
        (h.ipv6 s hHost).1
      rw [hPort] at hIn
      have hNot : skobka ≠ skobkaEnd ∧ skobka ≠ colon := by decide
      simp only [Host.rendered, List.cons_append, List.append_assoc, List.nil_append]
      rw [findPort]
      simp [hIn, hNot, Option.map_map, Function.comp_def]

theorem parseHost_hostPort (h : c.Clean) (x : Url) (hNo : x.port = []) :
    parseHost (findPort false) c.hostPort x =
      { x with
        host := c.host.rendered, hostPort := c.hostPort, port := c.port.getD [] } := by
  rw [parseHost, findPort_hostPort h]
  cases hPort : c.port with
  | none => simp [hostPort, hPort, hNo]
  | some port => rfl

theorem stripSkobka_rendered (h : c.Clean) (x : Url) (hHost : x.host = c.host.rendered) :
    stripSkobka x = { x with host := c.host.bare } := by
  unfold stripSkobka
  rw [hHost]
  cases hKind : c.host with
  | name s =>
      have hNot : s.head? ≠ some skobka := fun hHead =>
        (h.name s hKind).2.2.2.1 (List.mem_of_mem_head? hHead)
      have hSame : { x with host := s } = x := by
        cases x
        simp_all [Host.rendered]
      simp [Host.rendered, Host.bare, hNot, hSame]
  | ipv6 s =>
      have hLast : (skobka :: (s ++ [skobkaEnd])).getLast? = some skobkaEnd := by
        rw [← List.cons_append, List.getLast?_concat]
      simp [Host.rendered, Host.bare, hLast]

/-! ## The whole text -/

theorem parseProtocol_rendered (h : c.Clean) (x : Url) (hNo : x.protocol = []) :
    parseProtocol c.rendered x =
      ({ x with protocol := c.protocol.getD [] },
        userText c.user ++ c.hostPort ++ pathText c.path) := by
  cases hProtocol : c.protocol with
  | none =>
      have hNone : c.rendered.dropInfix? schemeEnd = none := by
        refine dropInfix?_eq_none.2 ?_
        rintro ⟨p, r, hCut⟩
        exact Option.some_ne_none p ((h.protocol p r hCut.symm).symm.trans hProtocol)
      have hText : c.rendered = userText c.user ++ c.hostPort ++ pathText c.path := by
        simp [rendered, hProtocol]
      rw [parseProtocol, hNone, hText]
      cases x
      subst hNo
      rfl
  | some p =>
      have hCut : c.rendered.dropInfix? schemeEnd =
          some (p, userText c.user ++ c.hostPort ++ pathText c.path) := by
        refine dropInfix?_iff.2 ⟨by simp [rendered, hProtocol], fun p' r' hCut => ?_⟩
        have hSame := (h.protocol p' r' hCut).symm.trans hProtocol
        simp only [Option.some.injEq] at hSame
        rw [hSame]
      simp [parseProtocol, hCut]

theorem atSign_notMem_hostPort (h : c.Clean) : atSign ∉ c.hostPort := by
  have hPort : atSign ∉ (c.port.elim [] fun port => colon :: port) := by
    cases hPort : c.port with
    | none => simp
    | some port => simpa [atSign, colon] using (h.port port hPort).1
  have hHost : atSign ∉ c.host.rendered := by
    cases hHost : c.host with
    | name s => exact (h.name s hHost).2.1
    | ipv6 s => simpa [Host.rendered, atSign, skobka, skobkaEnd] using (h.ipv6 s hHost).2.1
  simp [hostPort, hPort, hHost]

/-- The `'/'` that ends the host is the first one. -/
theorem slash_notMem_authority (h : c.Clean) : slash ∉ userText c.user ++ c.hostPort := by
  have hUser : slash ∉ userText c.user := by
    match hUser : c.user with
    | none => simp [userText]
    | some (user, none) => simpa [userText, slash, atSign] using (h.user user none hUser).2.2
    | some (user, some pass) =>
        have hName := (h.user user (some pass) hUser).2.2
        have hPass := (h.pass user pass hUser).2
        have hOther : slash ≠ colon ∧ slash ≠ atSign := by decide
        simp [userText, hName, hPass, hOther]
  have hPort : slash ∉ (c.port.elim [] fun port => colon :: port) := by
    cases hPort : c.port with
    | none => simp
    | some port => simpa [slash, colon] using (h.port port hPort).2
  have hHost : slash ∉ c.host.rendered := by
    cases hHost : c.host with
    | name s => exact (h.name s hHost).2.2.1
    | ipv6 s => simpa [Host.rendered, slash, skobka, skobkaEnd] using (h.ipv6 s hHost).2.2
  simp [hostPort, hUser, hPort, hHost]

/-- The components of a text are what its parsing on a fresh `Url` sets. -/
theorem parse_rendered (h : c.Clean) : Url.parse c.rendered {} = c.url := by
  have hName : ∀ user pass, c.user = some (user, pass) → colon ∉ user ∧ atSign ∉ user :=
    fun user pass hUser => ⟨(h.user user pass hUser).1, (h.user user pass hUser).2.1⟩
  have hPass : ∀ user pass, c.user = some (user, some pass) → atSign ∉ pass :=
    fun user pass hUser => (h.pass user pass hUser).1
  have hUserText := fun x => parseUser_userText x hName hPass (atSign_notMem_hostPort h)
  have hSlash := slash_notMem_authority h
  have hLoop : findPortOnly false = findPort false := funext (findPortOnly_eq false)
  unfold Url.parse
  rw [parseProtocol_rendered h _ rfl]
  cases hPath : c.path with
  | none =>
      have hNone := dropInfix?_singleton_eq_none.2 hSlash
      simp only [pathText, List.append_nil, hNone, hLoop]
      rw [hUserText _ rfl rfl, parseHost_hostPort h _ rfl, stripSkobka_rendered h _ rfl]
      simp [url, hPath, clear]
  | some path =>
      obtain ⟨path, params⟩ := path
      obtain ⟨hHead, hFree⟩ := h.path path params hPath
      obtain ⟨rest, hRest⟩ : ∃ rest, pathText (some (path, params)) = slash :: rest := by
        obtain ⟨tail, rfl⟩ := List.head?_eq_some_iff.1 hHead
        exact ⟨_, rfl⟩
      have hCut : (userText c.user ++ c.hostPort ++ slash :: rest).dropInfix? [slash] =
          some (userText c.user ++ c.hostPort, rest) := dropInfix?_singleton hSlash
      simp only [hRest, hCut]
      rw [hUserText _ rfl rfl, parseHost_hostPort h _ rfl, ← hRest,
        parsePath_pathText _ hHead hFree rfl, stripSkobka_rendered h _ rfl]
      simp [url, hPath]

/-- `"http://akakist:tipaopa@[fc20::15e5]:22/bla/faka/blaz?aaa=1&bbb=2"`. -/
def sample : Components where
  protocol := some "http".toUTF8.data.toList
  user := some ("akakist".toUTF8.data.toList, some "tipaopa".toUTF8.data.toList)
  host := .ipv6 "fc20::15e5".toUTF8.data.toList
  port := some "22".toUTF8.data.toList
  path := some ("/bla/faka/blaz".toUTF8.data.toList, some "aaa=1&bbb=2".toUTF8.data.toList)

/-- Where the text is known, `"://"` is looked for at every place. -/
theorem protocol_of_places {s : Bytes} {protocol : Option Bytes}
    (h : ∀ n ≤ s.length, (s.drop n).take 3 = schemeEnd → protocol = some (s.take n))
    (p r : Bytes) (hCut : s = p ++ schemeEnd ++ r) : protocol = some p := by
  have hAt := h p.length (by simp [hCut])
  simpa [hCut, schemeEnd] using hAt

theorem sample_clean : sample.Clean where
  protocol := protocol_of_places (by decide +kernel)
  user := by
    rintro user pass hUser
    cases hUser
    decide +kernel
  pass := by
    rintro user pass hUser
    cases hUser
    decide +kernel
  name := by
    rintro s hName
    cases hName
  ipv6 := by
    rintro s hName
    cases hName
    decide +kernel
  port := by
    rintro port hPort
    cases hPort
    decide +kernel
  path := by
    rintro path params hPath
    cases hPath
    decide +kernel

theorem parse_sample :
    sample.Clean ∧ Url.parse sample.rendered {} = sample.url ∧
      sample.url.filename = "blaz".toUTF8.data.toList :=
  ⟨sample_clean, parse_rendered sample_clean, by decide +kernel⟩

end Components

end Url

end Megatron.Corelib
