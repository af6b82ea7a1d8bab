import MitosNetwork.Common.ByteOffsets
import MitosNetwork.Common.Checked
import MitosNetwork.Common.Utf8
import MitosNetwork.Errors.Error

/-!
# Fetching PAC scripts

What `fetch` of `src/proxy/pac.rs` makes of the bytes of a response, and `dechunk`, which takes the
chunked transfer encoding off its body. A chunk declares its size in bytes, but the body is text,
and cutting it inside of a character is a panic. `dechunk_panics_iff` says on which bodies that
happens, `dechunk_chunks` that chunks as they are written are read back.
-/

namespace MitosNetwork.Pac

open Checked List Text Option

variable {rest data next body : List Char} {raw : List UInt8}

/-! ## Chunks -/

def crlf : List Char := ['\r', '\n']

/-- The size in the first line of a chunk; an extension after a semicolon is ignored. -/
def chunkSize (sizeLine : List Char) : Option ℕ :=
  parseUsize 16 (trim (String.ofList (sizeLine.takeWhile (· != ';')))).toList

/-- One turn of the loop of `dechunk`: the data of a chunk and what is left after it. -/
def chunkTurn (rest : List Char) : Checked (Turn (List Char) (List Char)) :=
  match splitOnceOn crlf rest with
  | none => some .stop
  | some (sizeLine, tail) =>
    match chunkSize sizeLine with
    | none => some .stop
    | some size =>
      if size = 0 then some .stop
      else if byteLength tail < size then some .stop
      else
        -- `&tail[..size]`, which panics inside of a character.
        (splitAtByte size tail).map fun p =>
          .next p.1 ((stripPrefix? crlf p.2).getD [])

/-- `dechunk`. -/
def dechunk (body : List Char) : Checked (List Char) := (run chunkTurn body).map List.flatten

/-! ## Responses -/

/-- `MAX_PAC_SIZE`. -/
def maxPacSize : ℕ := 1024 * 1024

/-- `headers.lines().next().unwrap_or("")`. -/
def statusLine (headers : List Char) : List Char :=
  (lines (String.ofList headers)).head?.getD []

/-- `splitn(3, ' ').nth(1)` of the status line. -/
def statusCode (line : List Char) : Option (List Char) :=
  (splitOnce ' ' line).map fun p => p.2.takeWhile (· != ' ')

def isChunked (headers : List Char) : Bool :=
  contains "transfer-encoding: chunked".toList (Text.toAsciiLowercase headers)

/-- The end of `fetch`, from the bytes that were read from the server. -/
def decodeResponse (raw : List UInt8) : Checked (Result String) :=
  match splitOnceOn (crlf ++ crlf) (Utf8.lossy raw).toList with
  | none => some (.error (.other "malformed HTTP response fetching PAC"))
  | some (headers, body) =>
    if statusCode (statusLine headers) ≠ some "200".toList then
      some (.error (.other ("PAC server returned: " ++ String.ofList (statusLine headers))))
    else
      (if isChunked headers then dechunk body else some body).map fun body =>
        if maxPacSize < byteLength body then .error (.other "PAC file exceeds size limit")
        else .ok (String.ofList body)

/-! ## What a turn does -/

/-- The first line of a chunk of `size` bytes. -/
structure SizeLine (sizeLine : List Char) (size : ℕ) : Prop where
  first : ¬crlf <:+: sizeLine
  value : chunkSize sizeLine = some size
  pos : 0 < size

theorem splitOnceOn_crlf {sizeLine : List Char} (h : ¬crlf <:+: sizeLine) (tail : List Char) :
    splitOnceOn crlf (sizeLine ++ crlf ++ tail) = some (sizeLine, tail) := by
  have hsp : sizeLine ++ crlf ++ tail = sizeLine ++ '\r' :: '\n' :: tail := by
    rw [append_assoc]
    rfl
  rw [hsp]
  exact splitOnceOn_pair (by decide) h tail

theorem chunkTurn_of_sizeLine {sizeLine : List Char} {size : ℕ} (h : SizeLine sizeLine size)
    {tail : List Char} (htail : size ≤ byteLength tail) :
    chunkTurn (sizeLine ++ crlf ++ tail) = (splitAtByte size tail).map fun p =>
      .next p.1 ((stripPrefix? crlf p.2).getD []) := by
  rw [chunkTurn, splitOnceOn_crlf h.first]
  simp only [h.value, if_neg h.pos.ne', if_neg (Nat.not_lt.mpr htail)]

theorem exists_sizeLine (h : chunkTurn rest ≠ some .stop) :
    ∃ sizeLine tail size, SizeLine sizeLine size ∧ rest = sizeLine ++ crlf ++ tail ∧
      size ≤ byteLength tail := by
  unfold chunkTurn at h
  cases hsp : splitOnceOn crlf rest with
  | none =>
    rw [hsp] at h
    exact (h rfl).elim
  | some p =>
    obtain ⟨sizeLine, tail⟩ := p
    obtain ⟨hrest, hfst⟩ := splitOnceOn_eq_some (cons_ne_nil _ _) hsp
    simp only [hsp] at h
    cases hval : chunkSize sizeLine with
    | none =>
      rw [hval] at h
      exact (h rfl).elim
    | some size =>
      simp only [hval] at h
      split at h
      · exact (h rfl).elim
      split at h
      · exact (h rfl).elim
      rename_i hzero hsh
      exact ⟨sizeLine, tail, size, ⟨hfst, hval, Nat.pos_of_ne_zero hzero⟩, hrest, Nat.not_lt.mp hsh⟩

theorem chunkTurn_eq_none_iff :
    chunkTurn rest = none ↔ ∃ sizeLine tail size, SizeLine sizeLine size ∧
      rest = sizeLine ++ crlf ++ tail ∧ size ≤ byteLength tail ∧
        ∀ data after, tail = data ++ after → byteLength data ≠ size := by
  constructor
  · intro h
    obtain ⟨sizeLine, tail, size, hline, rfl, htail⟩ := exists_sizeLine (h ▸ some_ne_none _ |>.symm)
    rw [chunkTurn_of_sizeLine hline htail, map_eq_none_iff, splitAtByte_eq_none_iff] at h
    exact ⟨sizeLine, tail, size, hline, rfl, htail, h⟩
  · rintro ⟨sizeLine, tail, size, hline, rfl, htail, hcut⟩
    rw [chunkTurn_of_sizeLine hline htail, splitAtByte_eq_none_iff.mpr hcut, map_none]

theorem exists_of_chunkTurn_next (h : chunkTurn rest = some (.next data next)) :
    ∃ sizeLine after, SizeLine sizeLine (byteLength data) ∧
      rest = sizeLine ++ crlf ++ (data ++ after) ∧ next = (stripPrefix? crlf after).getD [] := by
  obtain ⟨sizeLine, tail, size, hline, rfl, htail⟩ :=
    exists_sizeLine fun hstop => by cases h.symm.trans hstop
  rw [chunkTurn_of_sizeLine hline htail] at h
  obtain ⟨⟨data', after⟩, hsp, heq⟩ := map_eq_some_iff.mp h
  cases heq
  obtain ⟨rfl, rfl⟩ := splitAtByte_eq_some hsp
  exact ⟨sizeLine, after, hline, rfl, rfl⟩

theorem chunkTurn_chunk {sizeLine : List Char} (h : SizeLine sizeLine (byteLength data))
    (rest : List Char) :
    chunkTurn (sizeLine ++ crlf ++ (data ++ crlf ++ rest)) = some (.next data rest) := by
  have htail : byteLength data ≤ byteLength (data ++ crlf ++ rest) := by
    rw [byteLength_append, byteLength_append, Nat.add_assoc]
    exact Nat.le_add_right _ _
  rw [chunkTurn_of_sizeLine h htail, append_assoc, splitAtByte_byteLength,
    map_some, stripPrefix?_append, getD_some]

theorem length_stripPrefix?_le (start cs : List Char) :
    ((stripPrefix? start cs).getD []).length ≤ cs.length := by
  unfold stripPrefix?
  split
  · rw [getD_some, length_drop]
    exact Nat.sub_le _ _
  · exact Nat.zero_le _

theorem shrinks_chunkTurn : Shrinks chunkTurn := by
  intro rest next data h
  obtain ⟨sizeLine, after, -, rfl, rfl⟩ := exists_of_chunkTurn_next h
  have hle := length_stripPrefix?_le crlf after
  simp only [length_append, crlf, length_cons] at hle ⊢
  omega

/-! ## Panics -/

/-- Chunks, and then one whose bytes end inside of a character. -/
def CutsCharacter (body : List Char) : Prop :=
  ∃ (chunks : List (List Char × List Char)) (sizeLine tail : List Char) (size : ℕ),
    body = chunks.flatMap (fun c => c.1 ++ crlf ++ (c.2 ++ crlf)) ++ (sizeLine ++ crlf ++ tail) ∧
      (∀ c ∈ chunks, SizeLine c.1 (byteLength c.2)) ∧ SizeLine sizeLine size ∧
      size ≤ byteLength tail ∧ ∀ data after, tail = data ++ after → byteLength data ≠ size

theorem run_chunkTurn_chunk {sizeLine : List Char} (h : SizeLine sizeLine (byteLength data))
    (rest : List Char) :
    run chunkTurn (sizeLine ++ crlf ++ (data ++ crlf) ++ rest) =
      (run chunkTurn rest).map (data :: ·) := by
  rw [append_assoc (sizeLine ++ crlf)]
  exact run_of_next shrinks_chunkTurn (chunkTurn_chunk h rest)

theorem CutsCharacter.of_chunkTurn_next (hcut : CutsCharacter next)
    (h : chunkTurn rest = some (.next data next)) : CutsCharacter rest := by
  obtain ⟨line, after, hline, rfl, hnext⟩ := exists_of_chunkTurn_next h
  obtain ⟨chunks, sizeLine, tail, size, hbody, hchk, hlast⟩ := hcut
  have hafter : after = crlf ++ next := by
    unfold stripPrefix? at hnext
    split at hnext
    · rename_i hst
      obtain ⟨rest, rfl⟩ := isPrefixOf_iff_prefix.mp hst
      rw [hnext, getD_some, drop_left]
    · rw [hnext] at hbody
      simp [crlf] at hbody
  refine ⟨(line, data) :: chunks, sizeLine, tail, size, ?_,
    forall_mem_cons.mpr ⟨hline, hchk⟩, hlast⟩
  rw [hafter, hbody, flatMap_cons]
  simp only [append_assoc]

theorem run_chunkTurn_eq_none_iff : run chunkTurn body = none ↔ CutsCharacter body := by
  constructor
  · intro h
    obtain ⟨rest, hrch, hpanic⟩ := (run_eq_none_iff shrinks_chunkTurn).mp h
    induction hrch using Relation.ReflTransGen.head_induction_on with
    | refl =>
      obtain ⟨sizeLine, tail, size, hline, rfl, htail, hcut⟩ := chunkTurn_eq_none_iff.mp hpanic
      exact ⟨[], sizeLine, tail, size, rfl, forall_mem_nil _, hline, htail, hcut⟩
    | head hstep hrch ih =>
      obtain ⟨data, hturn⟩ := hstep
      exact (ih ((run_eq_none_iff shrinks_chunkTurn).mpr ⟨rest, hrch, hpanic⟩)).of_chunkTurn_next
        hturn
  · rintro ⟨chunks, sizeLine, tail, size, rfl, hchk, hline, htail, hcut⟩
    induction chunks with
    | nil =>
      refine (run_eq_none_iff shrinks_chunkTurn).mpr ⟨_, .refl, ?_⟩
      exact chunkTurn_eq_none_iff.mpr ⟨sizeLine, tail, size, hline, rfl, htail, hcut⟩
    | cons c chunks ih =>
      obtain ⟨hc, hchk⟩ := forall_mem_cons.mp hchk
      rw [flatMap_cons, append_assoc, run_chunkTurn_chunk hc, ih hchk, map_none]

theorem dechunk_eq_none_iff : dechunk body = none ↔ CutsCharacter body := by
  rw [dechunk, map_eq_none_iff, run_chunkTurn_eq_none_iff]

theorem decodeResponse_eq_none_iff :
    decodeResponse raw = none ↔ ∃ headers body,
      splitOnceOn (crlf ++ crlf) (Utf8.lossy raw).toList = some (headers, body) ∧
        statusCode (statusLine headers) = some "200".toList ∧ isChunked headers = true ∧
        CutsCharacter body := by
  unfold decodeResponse
  constructor
  · intro h
    cases hsp : splitOnceOn (crlf ++ crlf) (Utf8.lossy raw).toList with
    | none =>
      rw [hsp] at h
      cases h
    | some p =>
      obtain ⟨headers, body⟩ := p
      rw [hsp] at h
      dsimp only at h
      split at h
      · cases h
      rename_i hsta
      rw [map_eq_none_iff] at h
      split at h
      · rename_i hchk
        exact ⟨headers, body, rfl, not_not.mp hsta, hchk, dechunk_eq_none_iff.mp h⟩
      · cases h
  · rintro ⟨headers, body, hsp, hsta, hchk, hcut⟩
    rw [hsp]
    dsimp only
    rw [if_neg (not_not.mpr hsta), if_pos hchk, dechunk_eq_none_iff.mpr hcut, map_none]

/-- Decoding panics exactly on the bodies with a chunk whose declared size ends inside of a
character, after chunks that are well formed; fetching does on the responses with such a body. -/
theorem dechunk_panics_iff (body : List Char) (raw : List UInt8) :
    (dechunk body = none ↔ CutsCharacter body) ∧
      (decodeResponse raw = none ↔ ∃ headers body,
        Text.splitOnceOn (crlf ++ crlf) (Utf8.lossy raw).toList = some (headers, body) ∧
          statusCode (statusLine headers) = some "200".toList ∧ isChunked headers = true ∧
          CutsCharacter body) :=
  ⟨dechunk_eq_none_iff, decodeResponse_eq_none_iff⟩

/-- `1`, a line end, an accented letter of two bytes, and a line end. -/
def accented : List UInt8 := [0x31, 0x0d, 0x0a, 0xc3, 0xa9, 0x0d, 0x0a]

def chunkedHead : List UInt8 :=
  "HTTP/1.1 200 OK\r\nTransfer-Encoding: chunked\r\n\r\n".toUTF8.data.toList

theorem dechunk_panics_accented :
    dechunk (Utf8.lossy accented).toList = none ∧
      decodeResponse (chunkedHead ++ accented) = none := by
  constructor
  · decide +kernel
  · decide +kernel

/-! ## Reading chunks back -/

/-- A chunk as it is written: a size in hexadecimal, which may have an extension after it, and data.
The text in a variable of the source has fewer than 2 ^ 64 bytes. -/
structure Chunk where
  digits : List Char
  extension : Option (List Char)
  data : List Char
  digitsValue_eq : digitsValue 16 digits 0 = some (byteLength data)
  notMem_extension : ∀ e ∈ extension, '\r' ∉ e ∧ '\n' ∉ e
  data_ne_nil : data ≠ []
  byteLength_lt : byteLength data < 2 ^ 64

namespace Chunk

def sizeLine (c : Chunk) : List Char := c.digits ++ (c.extension.map (';' :: ·)).getD []

def text (c : Chunk) : List Char := c.sizeLine ++ crlf ++ (c.data ++ crlf)

end Chunk

theorem hex_digit_spec {c : Char} (h : isDigit 16 c = true) :
    isWhitespace c = false ∧ c ≠ ';' ∧ c ≠ '+' ∧ c ≠ '\r' := by
  have hall := of_ascii
    (P := fun c => isDigit 16 c = true → isWhitespace c = false ∧ c ≠ ';' ∧ c ≠ '+' ∧ c ≠ '\r')
    (by decide +kernel) (toNat_lt_of_isDigit h)
  exact hall h

theorem Chunk.sizeLine_spec (c : Chunk) : SizeLine c.sizeLine (byteLength c.data) := by
  have hdig := fun d hd => hex_digit_spec (isDigit_of_digitsValue c.digitsValue_eq d hd)
  have hpos := byteLength_pos c.data_ne_nil
  have hne : c.digits ≠ [] := by
    intro hnil
    have hval := c.digitsValue_eq
    rw [hnil] at hval
    exact hpos.ne (Option.some.inj hval)
  refine ⟨?_, ?_, hpos⟩
  · have hcr : '\r' ∉ c.sizeLine := by
      intro hmem
      rcases mem_append.mp hmem with hmem | hmem
      · exact (hdig _ hmem).2.2.2 rfl
      · cases hext : c.extension with
        | none =>
          rw [hext] at hmem
          cases hmem
        | some e =>
          rw [hext] at hmem
          rcases mem_cons.mp hmem with hmem | hmem
          · exact absurd hmem (by decide)
          · exact (c.notMem_extension e hext).1 hmem
    exact fun hin => hcr (hin.subset mem_cons_self)
  · have hsemicolon : ∀ d ∈ ((c.extension.map (';' :: ·)).getD []).head?,
        (d != ';') = false := by
      cases c.extension with
      | none => exact fun d hd => (some_ne_none d hd.symm).elim
      | some e =>
        intro d hd
        obtain rfl := Option.some.inj hd
        rfl
    have htake : c.sizeLine.takeWhile (· != ';') = c.digits := by
      rw [Chunk.sizeLine, takeWhile_append_of_pos fun d hd => bne_iff_ne.mpr (hdig d hd).2.1,
        takeWhile_of_head hsemicolon, append_nil]
    have htrim : trim (String.ofList c.digits) = String.ofList c.digits := by
      refine trim_eq_self (fun d hd => ?_) (fun d hd => ?_)
      · rw [String.toList_ofList] at hd
        exact (hdig d (mem_of_mem_head? hd)).1
      · rw [String.toList_ofList] at hd
        exact (hdig d (mem_of_mem_getLast? hd)).1
    have hplus : skipPlus c.digits = c.digits := by
      obtain ⟨d, ds, hds⟩ := exists_cons_of_ne_nil hne
      rw [hds]
      exact if_neg (hdig d (hds ▸ mem_cons_self)).2.2.1
    rw [chunkSize, htake, htrim, String.toList_ofList, parseUsize, hplus,
      if_neg (by simpa using hne), c.digitsValue_eq, bind_some, if_pos c.byteLength_lt]

theorem run_chunkTurn_chunks (chunks : List Chunk) (trailer : List Char) :
    run chunkTurn (chunks.flatMap Chunk.text ++ ('0' :: crlf ++ trailer)) =
      some (chunks.map Chunk.data) := by
  induction chunks with
  | nil =>
    have hstop : chunkTurn ('0' :: crlf ++ trailer) = some .stop := by
      have hsp : splitOnceOn crlf (['0'] ++ crlf ++ trailer) = some (['0'], trailer) :=
        splitOnceOn_crlf (by decide) trailer
      have hzero : chunkSize ['0'] = some 0 := by decide +kernel
      rw [chunkTurn, ← singleton_append, hsp]
      simp only [hzero, if_true]
    exact run_of_stop hstop
  | cons c chunks ih =>
    rw [flatMap_cons, append_assoc, Chunk.text, run_chunkTurn_chunk c.sizeLine_spec, ih]
    rfl

/-- Decoding gives back the data of chunks, whatever it is and whatever comes after the last chunk.
-/
theorem dechunk_chunks (chunks : List Chunk) (trailer : List Char) :
    dechunk (chunks.flatMap Chunk.text ++ ('0' :: crlf ++ trailer)) =
      some (chunks.flatMap Chunk.data) := by
  rw [dechunk, run_chunkTurn_chunks, map_some, flatMap_def]

def Chunk.plain (data : List Char) (hne : data ≠ []) (hlt : byteLength data < 2 ^ 64) :
    Chunk where
  digits := Nat.toDigits 16 (byteLength data)
  extension := none
  data := data
  digitsValue_eq := digitsValue_toDigits (by decide) (by decide) _
  notMem_extension e he := (some_ne_none e he.symm).elim
  data_ne_nil := hne
  byteLength_lt := hlt

/-- Data that looks like the end of the body, and a size with an upper case digit and an
extension. -/
theorem dechunk_chunks_nested :
    dechunk "5\r\n0\r\n\r\n\r\nA;x=\"y\"\r\n0123456789\r\n0\r\nx".toList =
      some "0\r\n\r\n0123456789".toList := by
  have hchunks := dechunk_chunks
    [.plain "0\r\n\r\n".toList (by decide) (by decide),
      ⟨"A".toList, some "x=\"y\"".toList, "0123456789".toList, by decide, by decide, by decide,
        by decide⟩] "x".toList
  exact hchunks

end MitosNetwork.Pac
