import MitosNetwork.Proxy.Proxy

/-!
# Hosts and names without a proxy

What `extract_host` and `host_matches_no_proxy` of `src/proxy/proxy.rs` mean: the host of a URL, and
the labels of names. A text that has no scheme is cut at a `://` wherever it has one, in the query
as well.
-/

namespace MitosNetwork

open List Text

/-- To end with a text behind a separator is to end with its pieces. -/
theorem Lines.splitOn_suffix_iff {α : Type} [DecidableEq α] {sep : α} {l l' : List α} :
    l.splitOn sep <:+ l'.splitOn sep ↔ l' = l ∨ sep :: l <:+ l' := by
  have hinj {a b : List α} (h : a.splitOn sep = b.splitOn sep) : a = b := by
    have hjoin := congrArg [sep].intercalate h
    rwa [intercalate_splitOn, intercalate_splitOn] at hjoin
  constructor
  · rintro ⟨pieces, hpcs⟩
    by_cases hnil : pieces = []
    · rw [hnil] at hpcs
      exact .inl (hinj hpcs).symm
    · have hsep : ∀ piece ∈ pieces, sep ∉ piece := by
        intro piece hpc hmem
        have hmem' : piece ∈ l'.splitOn sep := hpcs ▸ mem_append_left _ hpc
        simpa using Lines.eq_false_of_mem_splitOnP hmem' sep hmem
      refine .inr ⟨[sep].intercalate pieces, hinj ?_⟩
      rw [splitOn_append_cons_self, splitOn_intercalate sep hsep hnil, hpcs]
  · rintro (rfl | ⟨front, rfl⟩)
    · exact suffix_rfl
    · rw [splitOn_append_cons_self]
      exact suffix_append _ _

namespace Proxy

variable {cs before after : List Char} {c : Char}

/-! ## Names -/

def IsName (cs : List Char) : Prop := ∀ label ∈ cs.splitOn '.', IsWord label

abbrev Name := { cs : List Char // IsName cs }

def labels (cs : List Char) : List (List Char) := (toAsciiLowercase cs).splitOn '.'

/-- A name as a list of names without a proxy has it. -/
structure Pattern where
  before : List Char
  dot : Bool
  name : Name
  after : List Char
  before_isWhitespace : ∀ c ∈ before, isWhitespace c = true
  after_isWhitespace : ∀ c ∈ after, isWhitespace c = true

namespace Pattern

def core (p : Pattern) : List Char := if p.dot then '.' :: p.name.1 else p.name.1

def text (p : Pattern) : String := String.ofList (p.before ++ p.core ++ p.after)

def ofName (name : Name) : Pattern := ⟨[], false, name, [], by simp, by simp⟩

def IsWildcard (p : Pattern) : Prop := p.core = ['*']

end Pattern

theorem eq_of_toLower {d : Char} (hd : d.toNat < 97) (h : c.toLower = d) : c = d := by
  unfold Char.toLower at h
  split at h
  · rename_i hc
    have hle : 65 ≤ c.val.toNat ∧ c.val.toNat ≤ 90 := hc
    have hval : d.toNat = (c.val.toNat + 32) % 2 ^ 32 := by
      rw [← h]
      exact UInt32.toNat_add _ _
    omega
  · exact h

theorem dropWhile_pad {p : Char → Bool} (hbefore : ∀ c ∈ before, p c = true)
    (hcs : ∀ c ∈ cs, p c = false) (hne : cs ≠ []) :
    (before ++ cs ++ after).dropWhile p = cs ++ after := by
  obtain ⟨c, rest, rfl⟩ := exists_cons_of_ne_nil hne
  rw [append_assoc, dropWhile_append_of_pos hbefore]
  exact dropWhile_cons_of_neg (by simp [hcs c mem_cons_self])

namespace IsName

variable (h : IsName cs)
include h

theorem isWhitespace_eq_false (hc : c ∈ cs) : isWhitespace c = false := by
  by_cases hdot : c = '.'
  · rw [hdot]
    rfl
  · obtain ⟨label, hlab, hmem⟩ := Lines.exists_mem_splitOn hc hdot
    exact (h label hlab).2 c hmem

theorem exists_cons : ∃ c rest, cs = c :: rest ∧ c ≠ '.' := by
  cases cs with
  | nil => exact absurd rfl (h [] mem_cons_self).1
  | cons c rest =>
    refine ⟨c, rest, rfl, ?_⟩
    rintro rfl
    have hsp : ('.' :: rest).splitOn '.' = [] :: rest.splitOn '.' :=
      splitOn_append_cons_self [] rest
    exact absurd rfl (h [] (hsp ▸ mem_cons_self)).1

end IsName

theorem trim_text (p : Pattern) : trim p.text = String.ofList p.core := by
  have hcore : ∀ c ∈ p.core, isWhitespace c = false := by
    unfold Pattern.core
    split
    · rintro c (_ | ⟨_, hc⟩)
      · rfl
      · exact p.name.2.isWhitespace_eq_false hc
    · exact fun c hc => p.name.2.isWhitespace_eq_false hc
  have hne : p.core ≠ [] := by
    obtain ⟨c, rest, hname, -⟩ := p.name.2.exists_cons
    unfold Pattern.core
    split <;> simp [hname]
  have hback : (p.after.reverse ++ p.core.reverse).dropWhile isWhitespace = p.core.reverse := by
    rw [dropWhile_append_of_pos (by simpa using p.after_isWhitespace)]
    refine dropWhile_eq_self_iff.mpr fun h => ?_
    exact Bool.eq_false_iff.mp (hcore _ (mem_reverse.mp (getElem_mem h)))
  rw [trim, Pattern.text, String.toList_ofList, dropWhile_pad p.before_isWhitespace hcore hne,
    reverse_append, hback, reverse_reverse]

theorem toAsciiLowercase_core_iff {p : Pattern} :
    toAsciiLowercase p.core = ['*'] ↔ p.IsWildcard := by
  constructor
  · intro h
    obtain ⟨d, hd, hlow⟩ := map_eq_singleton_iff.mp h
    rw [Pattern.IsWildcard, hd, eq_of_toLower (by decide) hlow]
  · intro h
    rw [h]
    rfl

theorem hostMatchesNoProxy_text (host : List Char) (p : Pattern) :
    hostMatchesNoProxy host p.text = true ↔ p.IsWildcard ∨ labels p.name.1 <:+ labels host := by
  obtain ⟨c, rest, hname, hc⟩ := p.name.2.exists_cons
  have hstrip : (stripPrefix? ['.'] (toAsciiLowercase p.core)).getD (toAsciiLowercase p.core) =
      toAsciiLowercase p.name.1 := by
    unfold Pattern.core
    split
    · rfl
    · have hlow : c.toLower ≠ '.' := fun h => hc (eq_of_toLower (by decide) h)
      simp [stripPrefix?, toAsciiLowercase, hname, hlow.symm]
  rw [hostMatchesNoProxy, trim_text, String.toList_ofList, hstrip, labels, labels,
    Lines.splitOn_suffix_iff, ← toAsciiLowercase_core_iff]
  by_cases h : toAsciiLowercase p.core = ['*'] <;> simp [h]

/-- **Names without a proxy.** A pattern matches the hosts whose labels end with its own, and `*`
matches every host. So a name matches itself, what matches a name matches all that this one matches,
and a URL whose host ends with the labels of a pattern in the list gets no proxy. -/
theorem noProxy_matches_labels :
    (∀ (host : List Char) (p : Pattern), hostMatchesNoProxy host p.text = true ↔
      p.IsWildcard ∨ labels p.name.1 <:+ labels host) ∧
    (∀ name : Name, hostMatchesNoProxy name.1 (Pattern.ofName name).text = true) ∧
    (∀ a b c : Name, hostMatchesNoProxy a.1 (Pattern.ofName b).text = true →
      hostMatchesNoProxy b.1 (Pattern.ofName c).text = true →
      hostMatchesNoProxy a.1 (Pattern.ofName c).text = true) ∧
    ∀ (cfg : ProxyConfig) (url host : List Char) (p : Pattern), extractHost url = some host →
      p.text ∈ cfg.noProxy → labels p.name.1 <:+ labels host →
      manualDirective cfg url = "DIRECT" := by
  refine ⟨hostMatchesNoProxy_text, fun _ => ?_, fun a b c => ?_,
    fun cfg url host p hhost hp h => ?_⟩
  · exact (hostMatchesNoProxy_text _ _).mpr (.inr suffix_rfl)
  · simp only [hostMatchesNoProxy_text]
    rintro (hstar | hab) (hstar' | hbc)
    · exact .inl hstar'
    · -- the host `*` ends with the labels of `*` only
      have hb : toAsciiLowercase b.1 = ['*'] := toAsciiLowercase_core_iff.mpr hstar
      rw [labels, labels, Lines.splitOn_suffix_iff, hb] at hbc
      rcases hbc with hc | hc
      · exact .inl (toAsciiLowercase_core_iff.mp hc.symm)
      · simp [suffix_cons_iff] at hc
    · exact .inl hstar'
    · exact .inr (hbc.trans hab)
  · have hany : cfg.noProxy.any (hostMatchesNoProxy host) = true :=
      any_eq_true.mpr ⟨_, hp, (hostMatchesNoProxy_text _ _).mpr (.inr h)⟩
    rw [manualDirective, hhost, Option.getD_some, if_pos hany]

/-- `*` is a label that no label of the host has to be. -/
theorem noProxy_matches_wildcard :
    hostMatchesNoProxy "example.com".toList "*" = true ∧ IsName ['*'] ∧
      ¬labels ['*'] <:+ labels "example.com".toList := by
  refine ⟨by decide +kernel, ?_, by decide +kernel⟩
  show ∀ label ∈ [['*']], IsWord label
  simp [IsWord, isWhitespace]

/-! ## Hosts -/

/-- Nothing in the text ends the authority of a URL. -/
def Free (cs : List Char) : Prop := '/' ∉ cs ∧ '?' ∉ cs ∧ '#' ∉ cs

/-- A URL by its parts. The host is a name, or an IPv6 literal, which has brackets around it. -/
structure Url where
  scheme : Option (List Char)
  userinfo : Option (List Char)
  host : List Char
  literal : Bool
  port : Option (List Char)
  tail : List Char
  scheme_free : ∀ cs ∈ scheme, Free cs
  userinfo_free : ∀ cs ∈ userinfo, Free cs
  host_ne_nil : host ≠ []
  host_free : Free host ∧ '@' ∉ host ∧ '[' ∉ host ∧ ']' ∉ host ∧ (':' ∈ host → literal = true)
  port_free : ∀ cs ∈ port, Free cs ∧ '@' ∉ cs
  tail_delimited : ∀ c ∈ tail.head?, c = '/' ∨ c = '?' ∨ c = '#'

namespace Url

def portText (u : Url) : List Char := u.port.elim [] (':' :: ·)

def hostPort (u : Url) : List Char :=
  if u.literal then '[' :: u.host ++ ']' :: u.portText else u.host ++ u.portText

def authority (u : Url) : List Char := u.userinfo.elim [] (· ++ ['@']) ++ u.hostPort

def text (u : Url) : List Char :=
  u.scheme.elim [] (· ++ "://".toList) ++ (u.authority ++ u.tail)

end Url

/-! ### The first `://` -/

/-- The text begins with `before`, and the `://` behind that is its first one. -/
def Cut (text before rest : List Char) : Prop :=
  text = before ++ ("://".toList ++ rest) ∧ ¬"://".toList <:+: before ++ ":/".toList

theorem afterScheme_of_cut {url text rest : List Char} (h : Cut text before rest) :
    afterScheme url text = rest := by
  obtain ⟨rfl, hfirst⟩ := h
  induction before with
  | nil => rfl
  | cons c before ih =>
    rw [cons_append, infix_cons_iff, not_or] at hfirst
    rw [cons_append, afterScheme, if_neg, ih hfirst.2]
    -- the three characters at the front are not the ones behind `before`
    intro hscheme
    refine hfirst.1 (prefix_of_prefix_length_le ( isPrefixOf_iff_prefix.mp hscheme)
      ⟨'/' :: rest, ?_⟩ (by simp))
    simp

theorem afterScheme_cases (url text : List Char) :
    ¬"://".toList <:+: text ∧ afterScheme url text = url ∨ ∃ before rest, Cut text before rest := by
  induction text with
  | nil => exact .inl ⟨by decide, rfl⟩
  | cons c text ih =>
    by_cases hscheme : "://".toList <+: c :: text
    · obtain ⟨rest, hrest⟩ := hscheme
      exact .inr ⟨[], rest, hrest.symm, by decide⟩
    · rcases ih with ⟨hnone, hself⟩ | ⟨before, rest, rfl, hfirst⟩
      · refine .inl ⟨infix_cons_iff.not.mpr (not_or.mpr ⟨hscheme, hnone⟩), ?_⟩
        rw [afterScheme, if_neg (mt isPrefixOf_iff_prefix.mp hscheme), hself]
      · refine .inr ⟨c :: before, rest, rfl, ?_⟩
        rw [cons_append, infix_cons_iff, not_or]
        refine ⟨fun hfront => hscheme (hfront.trans ⟨'/' :: rest, ?_⟩), hfirst⟩
        simp

theorem cut_of_free {scheme : List Char} (h : '/' ∉ scheme) (rest : List Char) :
    Cut (scheme ++ ("://".toList ++ rest)) scheme rest := by
  refine ⟨rfl, fun hthere => ?_⟩
  have hslashes := hthere.sublist.count_le '/'
  rw [count_append, count_eq_zero.mpr h] at hslashes
  exact absurd hslashes (by decide)

/-! ### The authority -/

/-- The host of an authority behind its last `@`: what is in brackets, or up to a colon. -/
def hostOf : List Char → List Char
  | '[' :: rest => rest.takeWhile (· ≠ ']')
  | cs => cs.takeWhile (· ≠ ':')

/-- The text begins with an authority that has this host. -/
def HasHost (text host : List Char) : Prop :=
  ∃ front cs tail, text = front ++ cs ++ tail ∧ Free (front ++ cs) ∧
    (∀ c ∈ tail.head?, c = '/' ∨ c = '?' ∨ c = '#') ∧
    (∀ c ∈ front.getLast?, c = '@') ∧ '@' ∉ cs ∧ hostOf cs = host ∧ host ≠ []

theorem afterLast_append (front : List Char) (h : c ∉ cs) :
    afterLast c (front ++ c :: cs) = some cs := by
  have hrev : c ∉ cs.reverse := by simpa using h
  rw [afterLast, reverse_append, reverse_cons, append_assoc]
  rw [singleton_append, splitOnce_append hrev, Option.map_some, reverse_reverse]

theorem afterLast_eq_none (h : c ∉ cs) : afterLast c cs = none := by
  rw [afterLast, Option.map_eq_none_iff, Option.eq_none_iff_forall_ne_some]
  rintro ⟨before, after⟩ hsome
  have hsplit := splitOnce_eq_some hsome
  refine h (mem_reverse.mp ?_)
  rw [hsplit]
  exact mem_append_right _ mem_cons_self

theorem getD_afterLast_eq_iff {authority : List Char} :
    (afterLast c authority).getD authority = cs ↔
      ∃ front, authority = front ++ cs ∧ (∀ d ∈ front.getLast?, d = c) ∧ c ∉ cs := by
  constructor
  · rintro rfl
    by_cases hmem : c ∈ authority
    · obtain ⟨after, before, hsplit, hlast⟩ := eq_append_cons_of_mem (mem_reverse.mpr hmem)
      obtain rfl : authority = before.reverse ++ c :: after.reverse := by
        rw [← authority.reverse_reverse, hsplit]
        simp
      have hnot : c ∉ after.reverse := by simpa using hlast
      rw [afterLast_append _ hnot]
      exact ⟨before.reverse ++ [c], by simp, by simp, hnot⟩
    · rw [afterLast_eq_none hmem]
      exact ⟨[], rfl, by simp, hmem⟩
  · rintro ⟨front, rfl, hfront, hnot⟩
    rcases eq_nil_or_concat' front with rfl | ⟨front, d, rfl⟩
    · rw [nil_append, afterLast_eq_none hnot, Option.getD_none]
    · obtain rfl := hfront d (by simp)
      rw [append_assoc, singleton_append, afterLast_append front hnot, Option.getD_some]

theorem extractHost_eq (url : List Char) :
    extractHost url =
      let authority := (afterScheme url url).takeWhile fun c => c ≠ '/' ∧ c ≠ '?' ∧ c ≠ '#'
      (some (hostOf ((afterLast '@' authority).getD authority))).filter (!·.isEmpty) := by
  unfold extractHost
  dsimp only
  generalize (afterLast '@' _).getD _ = cs
  fun_cases hostOf cs with
  | case1 rest => rfl
  | case2 cs hname =>
    split
    · exact (hname _ rfl).elim
    · rfl

theorem extractHost_eq_some_iff {url host : List Char} :
    extractHost url = some host ↔ HasHost (afterScheme url url) host := by
  rw [extractHost_eq]
  generalize afterScheme url url = text
  simp only [Option.filter_eq_some_iff, Option.some.injEq, Bool.not_eq_true', isEmpty_eq_false_iff]
  constructor
  · rintro ⟨hhost, hne⟩
    obtain ⟨front, hauthority, hfront, hnot⟩ := getD_afterLast_eq_iff.mp (Eq.refl
      ((afterLast '@' (text.takeWhile fun c => c ≠ '/' ∧ c ≠ '?' ∧ c ≠ '#')).getD _))
    refine ⟨front, _, text.dropWhile fun c => c ≠ '/' ∧ c ≠ '?' ∧ c ≠ '#', ?_, ?_, fun c hc => ?_,
      hfront, hnot, hhost, hne⟩
    · rw [← hauthority, takeWhile_append_dropWhile]
    · rw [← hauthority]
      refine ⟨fun hc => ?_, fun hc => ?_, fun hc => ?_⟩ <;>
        · have hfree := mem_takeWhile_imp hc
          simp at hfree
    · have hend := head?_dropWhile_not (fun c => decide (c ≠ '/' ∧ c ≠ '?' ∧ c ≠ '#')) text
      rw [hc] at hend
      grind
  · rintro ⟨front, cs, tail, rfl, hfree, htail, hfront, hnot, hhost, hne⟩
    have htake : (front ++ cs ++ tail).takeWhile (fun c => c ≠ '/' ∧ c ≠ '?' ∧ c ≠ '#') =
        front ++ cs := by
      rw [takeWhile_append_of_pos, takeWhile_of_head, append_nil]
      · intro c hc
        rcases htail c hc with rfl | rfl | rfl <;> rfl
      · intro c hc
        refine decide_eq_true ⟨?_, ?_, ?_⟩ <;> rintro rfl
        exacts [hfree.1 hc, hfree.2.1 hc, hfree.2.2 hc]
    rw [htake, getD_afterLast_eq_iff.mpr ⟨front, rfl, hfront, hnot⟩]
    exact ⟨hhost, hne⟩

namespace Url

variable (u : Url)

theorem free_hostPort : Free u.hostPort ∧ '@' ∉ u.hostPort := by
  have hhost := u.host_free
  have hport := u.port_free
  unfold hostPort portText
  cases hp : u.port <;> split <;> simp_all [Free]

theorem hostOf_hostPort : hostOf u.hostPort = u.host := by
  obtain ⟨-, -, hopen, hclose, hcolon⟩ := u.host_free
  have htake {c : Char} (hc : c ∉ u.host) {rest : List Char} (hrest : ∀ d ∈ rest.head?, d = c) :
      (u.host ++ rest).takeWhile (· ≠ c) = u.host := by
    have hne : ∀ d ∈ u.host, decide (d ≠ c) = true := by
      rintro d hd
      exact decide_eq_true fun heq => hc (heq ▸ hd)
    rw [takeWhile_append_of_pos hne, takeWhile_of_head fun d hd => by simp [hrest d hd], append_nil]
  unfold hostPort
  cases hliteral : u.literal with
  | true => exact @htake ']' hclose (']' :: u.portText) (by simp)
  | false =>
    have hcolon' : ':' ∉ u.host := fun hmem => by simp [hcolon hmem] at hliteral
    have hport : ∀ d ∈ u.portText.head?, d = ':' := by
      unfold portText
      cases u.port <;> simp
    simp only [Bool.false_eq_true, if_false, hostOf]
    split
    · rename_i rest heq
      obtain ⟨c, host, hhost⟩ := exists_cons_of_ne_nil u.host_ne_nil
      rw [hhost] at heq
      rw [hhost, (cons.inj heq).1] at hopen
      exact absurd mem_cons_self hopen
    · exact htake hcolon' hport

theorem hasHost : HasHost (u.authority ++ u.tail) u.host := by
  refine ⟨u.userinfo.elim [] (· ++ ['@']), u.hostPort, u.tail, rfl, ?_, u.tail_delimited, ?_,
    u.free_hostPort.2, u.hostOf_hostPort, u.host_ne_nil⟩
  · have huser := u.userinfo_free
    have hrest := u.free_hostPort.1
    cases hu : u.userinfo <;> simp_all [Free]
  · cases u.userinfo <;> simp

/-- **The host of a URL** is found whatever the path, the query and the fragment are, if and only if
the URL has a scheme, or there is no `://` in it, or behind the first one there stands an authority
with the same host. -/
theorem extractHost_text_iff :
    extractHost u.text = some u.host ↔
      u.scheme ≠ none ∨ ¬"://".toList <:+: u.text ∨
        ∃ before rest, Cut u.text before rest ∧ HasHost rest u.host := by
  rw [extractHost_eq_some_iff]
  constructor
  · intro hhost
    rcases afterScheme_cases u.text u.text with ⟨hnone, -⟩ | ⟨before, rest, hcut⟩
    · exact .inr (.inl hnone)
    · rw [afterScheme_of_cut hcut] at hhost
      exact .inr (.inr ⟨before, rest, hcut, hhost⟩)
  · rintro (hscheme | hnone | ⟨before, rest, hcut, hhost⟩)
    · obtain ⟨scheme, hscheme⟩ := Option.ne_none_iff_exists'.mp hscheme
      have hcut := cut_of_free (u.scheme_free scheme hscheme).1 (u.authority ++ u.tail)
      rw [← append_assoc] at hcut
      have htext : u.text = scheme ++ "://".toList ++ (u.authority ++ u.tail) := by
        rw [text, hscheme, Option.elim_some]
      rw [htext, afterScheme_of_cut hcut]
      exact u.hasHost
    · rcases afterScheme_cases u.text u.text with ⟨-, hself⟩ | ⟨before, rest, hcut, -⟩
      · rw [hself]
        cases hscheme : u.scheme with
        | none =>
          rw [text, hscheme]
          exact u.hasHost
        | some scheme =>
          refine absurd ⟨scheme, u.authority ++ u.tail, ?_⟩ hnone
          rw [text, hscheme, Option.elim_some]
      · exact absurd ⟨before, rest, by rw [hcut, append_assoc]⟩ hnone
    · rw [afterScheme_of_cut hcut]
      exact hhost

/-- A page of `intranet` that leads to one of `example.com`, with a scheme or without. -/
def loginPage (scheme : Bool) : Url where
  scheme := if scheme then some "http".toList else none
  userinfo := none
  host := "intranet".toList
  literal := false
  port := none
  tail := "/login?next=http://example.com/".toList
  scheme_free := by cases scheme <;> simp [Free]
  userinfo_free := by simp
  host_ne_nil := by simp
  host_free := by simp [Free]
  port_free := by simp
  tail_delimited := by simp

theorem extractHost_loginPage : extractHost (loginPage true).text = some "intranet".toList :=
  (loginPage true).extractHost_text_iff.mpr (.inl nofun)

/-- Without a scheme, the host is taken from the query. -/
theorem extractHost_query :
    extractHost (loginPage false).text = some "example.com".toList := by
  decide +kernel

end Url

end Proxy

end MitosNetwork
