import MitosNetwork.Dns.Resolver
import MitosNetwork.Ip.AddressText

/-!
# resolv.conf read back

`read_current` of `src/dns/resolver.rs` on the text of `apply_to`. Servers always come back, since
an address is written without whitespace. A search list comes back exactly when each of its domains
is a word: whatever the text, `read_current` finds nothing else.
-/

namespace MitosNetwork.Resolver

open List Text

open Diagnostics (readLine readCurrent)

variable {line rest : List Char} {search : List String} {conf : ResolvConf}

/-! ## The lines that are written -/

def serverKeyword : List Char := ['n', 'a', 'm', 'e', 's', 'e', 'r', 'v', 'e', 'r', ' ']

def searchKeyword : List Char := ['s', 'e', 'a', 'r', 'c', 'h', ' ']

theorem toList_serverKeyword : "nameserver ".toList = serverKeyword := String.toList_ofList

theorem toList_searchKeyword : "search ".toList = searchKeyword := String.toList_ofList

def serverLine (server : IpAddr) : List Char := serverKeyword ++ server.display.toList

def searchLine (search : List String) : List Char :=
  searchKeyword ++ [' '].intercalate (search.map String.toList)

def headerLines : List (List Char) := Lines.split '\n' header.toList

def searchLines (search : List String) : List (List Char) :=
  if search.isEmpty then [] else [searchLine search]

variable (servers : List IpAddr)

/-- The lines of `apply_to`. -/
def confLines (search : List String) : List (List Char) :=
  headerLines ++ searchLines search ++ servers.map serverLine

theorem toList_header :
    header.toList = Lines.file '\n' headerLines ∧
      ∀ l ∈ headerLines, l.head? = some '#' ∧ l.getLast? = some '.' ∧ '\n' ∉ l := by
  -- A literal is its list of characters; what is left to evaluate is about that list.
  have hhdr : ∃ text, header.toList = text ∧ text = Lines.file '\n' (Lines.split '\n' text) ∧
      ∀ l ∈ Lines.split '\n' text, l.head? = some '#' ∧ l.getLast? = some '.' ∧ '\n' ∉ l :=
    ⟨_, String.toList_append.trans (congrArg₂ (· ++ ·) String.toList_ofList String.toList_ofList),
      by decide +kernel, by decide +kernel⟩
  obtain ⟨text, htext, hfile, hls⟩ := hhdr
  unfold headerLines
  rw [htext]
  exact ⟨hfile, hls⟩

theorem toList_newline : "\n".toList = ['\n'] := by decide

theorem toList_searchText (search : List String) :
    (if search.isEmpty then "" else "search " ++ String.intercalate " " search ++ "\n").toList =
      Lines.file '\n' (searchLines search) := by
  have hbl : " ".toList = [' '] := by decide
  by_cases hemp : search.isEmpty
  · rw [searchLines, if_pos hemp, if_pos hemp, String.toList_empty, Lines.file, flatMap_nil]
  · rw [searchLines, if_neg hemp, if_neg hemp, String.toList_append, String.toList_append,
      toList_searchKeyword, toList_newline, String.toList_intercalate, hbl, Lines.file,
      flatMap_singleton, searchLine]

theorem toList_serversText :
    (String.join (servers.map fun s => "nameserver " ++ s.display ++ "\n")).toList =
      Lines.file '\n' (servers.map serverLine) := by
  rw [String.toList_join, Lines.file, flatMap_map, flatMap_map]
  refine flatMap_congr fun server _ => ?_
  rw [String.toList_append, String.toList_append, toList_serverKeyword, toList_newline, serverLine]

theorem toList_render (search : List String) :
    (render servers search).toList = Lines.file '\n' (confLines servers search) := by
  rw [render, String.toList_append, String.toList_append, toList_header.1, toList_searchText,
    toList_serversText, confLines, Lines.file, Lines.file, Lines.file, Lines.file,
    flatMap_append, flatMap_append]

/-! ## Reading one line -/

theorem isWord_display (ip : IpAddr) : Text.IsWord ip.display.toList := by
  have hchs := IpParser.takes_ipAddr.of_parseWith ip.parse_display
  refine ⟨fun hemp => ?_, fun c hc => ?_⟩
  · have hp := ip.parse_display
    rw [hemp] at hp
    cases hp
  · exact Address.isWhitespace_of_addressChar (hchs c hc)

def EndsInWord (line : List Char) : Prop := ∃ before last, line = before ++ last ∧ Text.IsWord last

theorem EndsInWord.append_left (h : EndsInWord line) (start : List Char) :
    EndsInWord (start ++ line) := by
  obtain ⟨before, last, rfl, hlast⟩ := h
  exact ⟨start ++ before, last, (append_assoc start before last).symm, hlast⟩

theorem EndsInWord.getLast? (h : EndsInWord line) :
    ∀ c ∈ line.getLast?, Text.isWhitespace c = false := by
  obtain ⟨before, last, rfl, hlast⟩ := h
  intro c hc
  rw [getLast?_append_of_ne_nil _ hlast.1] at hc
  exact hlast.2 c (mem_of_getLast? hc)

theorem endsInWord_serverLine (server : IpAddr) : EndsInWord (serverLine server) :=
  ⟨serverKeyword, _, rfl, isWord_display server⟩

theorem endsInWord_searchLine (hne : search ≠ []) (h : ∀ d ∈ search, Text.IsWord d.toList) :
    EndsInWord (searchLine search) := by
  obtain ⟨before, hbefore⟩ := getLast_suffix_intercalate hne
  have hlast := h _ (getLast_mem hne)
  exact .append_left ⟨before, _, hbefore.symm, hlast⟩ searchKeyword

theorem EndsInWord.trim_eq (h : EndsInWord line)
    (hhead : ∀ c ∈ line.head?, Text.isWhitespace c = false) :
    (Text.trim (String.ofList line)).toList = line := by
  rw [trim_eq_self, String.toList_ofList]
  · rwa [String.toList_ofList]
  · rw [String.toList_ofList]
    exact h.getLast?

theorem readLine_of_server {ip : IpAddr}
    (hline : (Text.trim (String.ofList line)).toList = serverKeyword ++ rest)
    (hip : IpAddr.parse (Text.trim (String.ofList rest)).toList = some ip) :
    readLine conf line = { conf with nameservers := conf.nameservers ++ [ip] } := by
  simp only [readLine, hline, toList_serverKeyword, stripPrefix?_append, hip]

theorem readLine_of_search
    (hline : (Text.trim (String.ofList line)).toList = searchKeyword ++ rest) :
    readLine conf line =
      { conf with search := (Text.splitWhitespace rest).map String.ofList } := by
  have hsrv : Text.stripPrefix? serverKeyword (searchKeyword ++ rest) = none := rfl
  simp only [readLine, hline, toList_serverKeyword, hsrv, toList_searchKeyword, stripPrefix?_append]

theorem readLine_of_other
    (hsrv : Text.stripPrefix? serverKeyword (Text.trim (String.ofList line)).toList = none)
    (hsea : Text.stripPrefix? searchKeyword (Text.trim (String.ofList line)).toList = none) :
    readLine conf line = conf := by
  simp only [readLine, toList_serverKeyword, toList_searchKeyword, hsrv, hsea]

theorem readLine_of_comment (conf : ResolvConf) (hhead : line.head? = some '#')
    (hlast : line.getLast? = some '.') : readLine conf line = conf := by
  obtain ⟨rest, rfl⟩ := head?_eq_some_iff.mp hhead
  have htrim : Text.trim (.ofList ('#' :: rest)) = String.ofList ('#' :: rest) := by
    refine trim_eq_self ?_ ?_
    · rw [String.toList_ofList]
      rintro _ ⟨⟩
      decide
    · rw [String.toList_ofList, hlast]
      rintro _ ⟨⟩
      decide
  apply readLine_of_other
  · rw [htrim, String.toList_ofList]
    rfl
  · rw [htrim, String.toList_ofList]
    rfl

theorem readLine_serverLine (conf : ResolvConf) (server : IpAddr) :
    readLine conf (serverLine server) =
      { conf with nameservers := conf.nameservers ++ [server] } := by
  have hword := isWord_display server
  have hhead : ∀ c ∈ (serverLine server).head?, Text.isWhitespace c = false := by
    rintro _ ⟨⟩
    decide
  have hself : Text.trim (.ofList server.display.toList) = server.display := by
    rw [String.ofList_toList]
    exact trim_eq_self (fun c hc => hword.2 c (mem_of_head? hc))
      fun c hc => hword.2 c (mem_of_getLast? hc)
  refine readLine_of_server ((endsInWord_serverLine server).trim_eq hhead) ?_
  rw [hself, IpAddr.parse_display]

theorem readLine_searchLine (conf : ResolvConf) (hne : search ≠ [])
    (h : ∀ d ∈ search, Text.IsWord d.toList) :
    readLine conf (searchLine search) = { conf with search := search } := by
  have hwords : ∀ w ∈ search.map String.toList, Text.IsWord w := forall_mem_map.mpr h
  have hhead : ∀ c ∈ (searchLine search).head?, Text.isWhitespace c = false := by
    rintro _ ⟨⟩
    decide
  have hback : (search.map String.toList).map String.ofList = search := by
    rw [map_map]
    exact (map_congr_left fun d _ => String.ofList_toList).trans (map_id search)
  rw [readLine_of_search ((endsInWord_searchLine hne h).trim_eq hhead),
    splitWhitespace_intercalate hwords, hback]

/-! ## Reading the file -/

theorem foldl_readLine_servers (conf : ResolvConf) (servers : List IpAddr) :
    (servers.map serverLine).foldl readLine conf =
      { conf with nameservers := conf.nameservers ++ servers } := by
  induction servers generalizing conf with
  | nil => simp
  | cons server servers ih =>
    rw [map_cons, foldl_cons, readLine_serverLine, ih]
    simp

theorem foldl_readLine_of_skipped {lines : List (List Char)}
    (h : ∀ line ∈ lines, readLine conf line = conf) : lines.foldl readLine conf = conf := by
  induction lines with
  | nil => rfl
  | cons line lines ih =>
    rw [forall_mem_cons] at h
    rw [foldl_cons, h.1, ih h.2]

theorem foldl_readLine_header (conf : ResolvConf) : headerLines.foldl readLine conf = conf := by
  refine foldl_readLine_of_skipped fun line hline => ?_
  obtain ⟨hhead, hlast, -⟩ := toList_header.2 line hline
  exact readLine_of_comment conf hhead hlast

theorem isWord_readLine (h : ∀ d ∈ conf.search, Text.IsWord d.toList) (line : List Char) :
    ∀ d ∈ (readLine conf line).search, Text.IsWord d.toList := by
  simp only [readLine, toList_searchKeyword]
  split
  · split
    · exact h
    · exact h
  · split
    · intro d hd
      obtain ⟨w, hw, rfl⟩ := mem_map.mp hd
      rw [String.toList_ofList]
      exact isWord_of_mem_splitWhitespace hw
    · exact h

theorem isWord_foldl_readLine (h : ∀ d ∈ conf.search, Text.IsWord d.toList)
    (lines : List (List Char)) :
    ∀ d ∈ (lines.foldl readLine conf).search, Text.IsWord d.toList := by
  induction lines generalizing conf with
  | nil => exact h
  | cons line lines ih =>
    rw [foldl_cons]
    exact ih (isWord_readLine h line)

theorem isWord_of_mem_search (text : String) :
    ∀ d ∈ (readCurrent text).search, Text.IsWord d.toList := by
  exact isWord_foldl_readLine (by simp) (Text.lines text)

theorem newline_notMem_of_isWord {w : List Char} (h : Text.IsWord w) : '\n' ∉ w := by
  intro hmem
  exact absurd (h.2 _ hmem) (by decide)

theorem newline_notMem_searchLine (h : ∀ d ∈ search, Text.IsWord d.toList) :
    '\n' ∉ searchLine search := by
  rw [searchLine, mem_append, not_or]
  refine ⟨by decide, fun hmem => ?_⟩
  rcases mem_intercalate hmem with hbl | ⟨w, hw, hmem⟩
  · exact absurd hbl (by decide)
  · obtain ⟨d, hd, rfl⟩ := mem_map.mp hw
    exact newline_notMem_of_isWord (h d hd) hmem

theorem of_mem_confLines {servers : List IpAddr} (h : ∀ d ∈ search, Text.IsWord d.toList) :
    ∀ l ∈ confLines servers search, '\n' ∉ l ∧ l.getLast? ≠ some '\r' := by
  have hends : ∀ {l : List Char}, EndsInWord l → l.getLast? ≠ some '\r' := by
    intro l hl hlast
    exact absurd (hl.getLast? _ hlast) (by decide)
  have hhdr : ∀ l ∈ headerLines, '\n' ∉ l ∧ l.getLast? ≠ some '\r' := by
    intro l hl
    obtain ⟨-, hlast, hnl⟩ := toList_header.2 l hl
    rw [hlast]
    exact ⟨hnl, by decide⟩
  have hsea : ∀ l ∈ searchLines search, '\n' ∉ l ∧ l.getLast? ≠ some '\r' := by
    intro l hl
    by_cases hne : search = []
    · simp [searchLines, hne] at hl
    · have hl : l = searchLine search := by simpa [searchLines, hne] using hl
      rw [hl]
      exact ⟨newline_notMem_searchLine h, hends (endsInWord_searchLine hne h)⟩
  have hsrv : ∀ l ∈ servers.map serverLine, '\n' ∉ l ∧ l.getLast? ≠ some '\r' := by
    intro l hl
    obtain ⟨server, -, rfl⟩ := mem_map.mp hl
    refine ⟨?_, hends (endsInWord_serverLine server)⟩
    rw [serverLine, mem_append, not_or]
    exact ⟨by decide, newline_notMem_of_isWord (isWord_display server)⟩
  exact forall_mem_append.mpr ⟨forall_mem_append.mpr ⟨hhdr, hsea⟩, hsrv⟩

theorem readCurrent_render_iff (search : List String) :
    readCurrent (render servers search) = ⟨servers, search⟩ ↔
      ∀ d ∈ search, Text.IsWord d.toList := by
  constructor
  · intro hread
    have hwords := isWord_of_mem_search (render servers search)
    rwa [hread] at hwords
  · intro h
    rw [readCurrent, lines_eq_of_file (toList_render servers search) (of_mem_confLines h),
      confLines, foldl_append, foldl_append, foldl_readLine_header]
    by_cases hne : search = []
    · rw [hne, searchLines, if_pos isEmpty_nil, foldl_nil, foldl_readLine_servers, nil_append]
    · have hemp : ¬search.isEmpty := by simpa using hne
      rw [searchLines, if_neg hemp, foldl_cons, foldl_nil,
        readLine_searchLine _ hne h, foldl_readLine_servers, nil_append]

theorem render_injected (domain : String) (server : IpAddr) (servers : List IpAddr) :
    render servers [domain ++ "\nnameserver " ++ server.display] =
      render (server :: servers) [domain] := by
  have hline : "\nnameserver " = "\n" ++ "nameserver " := rfl
  simp only [render, hline, isEmpty_cons, Bool.false_eq_true, if_false,
    String.intercalate_singleton, map_cons, String.join_cons, String.append_assoc]

end MitosNetwork.Resolver
