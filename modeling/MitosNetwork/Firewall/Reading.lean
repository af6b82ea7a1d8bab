import MitosNetwork.Firewall.Nftables
import MitosNetwork.Nft.Chain

/-!
# What nft reads in the rendered text

The rendered rule set as token trees. For names without a quote and sources that are words, the
text of `render` reads as exactly the template with the names, one string token each, and the rule
expressions in their places (`read_render`). The verdict of the input chain is then that of its
lines (`textVerdict_render`).
-/

namespace MitosNetwork.Firewall

open Nft List

variable {rule : Rule} {rules : List Rule} {zones : List Zone} {pairs : List (String × String)}
  {ifaces : List String}

/-! ## The pieces of a line -/

def word (w : String) : Tree := .leaf (.word w)

def str (s : String) : Tree := .leaf (.str s)

def sep : Tree := .leaf .sep

def PlainName (n : String) : Prop := '"' ∉ n.toList

instance (n : String) : Decidable (PlainName n) := inferInstanceAs (Decidable (_ ∉ _))

def PlainRule (r : Rule) : Prop := ∀ src ∈ r.source, src ≠ "" ∧ ∀ c ∈ src.toList, wordChar c

def setTrees : List String → List Tree
  | [] => []
  | [n] => [str n]
  | n :: m :: rest => str n :: .leaf .comma :: setTrees (m :: rest)

variable (rule : Rule)

def protocolTrees : List Tree :=
  match rule.protocol, rule.port with
  | some proto, some port => [word proto.nftName, word "dport", word port.nftExpr]
  | some proto, none => [word proto.nftName]
  | none, _ => []

def sourceTrees : List Tree :=
  match rule.source with
  | some src => [word "ip", word "saddr", word src]
  | none => []

def exprTrees : List Tree := protocolTrees rule ++ sourceTrees rule

def ruleTrees : List Tree := exprTrees rule ++ [word (nftAction rule.action)]

def lineTrees (line : InputLine) : List Tree :=
  word "iifname" :: .block (setTrees line.interfaces) ::
    (match line.rule with
      | some r => ruleTrees r
      | none => [word "accept"])

theorem lexes_ifaceSet {names : List String} (h : ∀ n ∈ names, PlainName n) :
    Lexes (ifaceSet names) (flattenAll (setTrees names)) := by
  induction names with
  | nil => decide
  | cons n names ih =>
    have hn := Lexes.str (h n mem_cons_self)
    have ih := ih fun m hm => h m (mem_cons_of_mem n hm)
    cases names with
    | nil => exact hn
    | cons m rest =>
      have hcomma : Lexes ", " [.leaf .comma] := by decide
      have hset : ifaceSet (n :: m :: rest) =
          "\"" ++ n ++ "\"" ++ ", " ++ ifaceSet (m :: rest) := by
        simp only [ifaceSet, map_cons, String.intercalate_cons_cons]
      rw [hset]
      exact (hn.append hcomma).append ih

theorem wordChar_of_mem_toString {n : ℕ} {c : Char} (hc : c ∈ (toString n).toList) :
    wordChar c := by
  rw [Nat.toString_eq_ofList_toDigits, String.toList_ofList] at hc
  have hdig : c.isDigit := Nat.isDigit_of_mem_toDigits (by decide) (by decide) hc
  exact wordChar_of_class (p := fun c => c.isDigit) (by decide) hdig

theorem wordChar_of_mem_nftExpr {port : PortSpec} {c : Char} (hc : c ∈ port.nftExpr.toList) :
    wordChar c := by
  unfold PortSpec.nftExpr at hc
  split at hc
  · simp only [String.toList_append, mem_append] at hc
    rcases hc with (hc | hc) | hc
    · exact wordChar_of_mem_toString hc
    · obtain rfl := mem_singleton.mp hc
      decide
    · exact wordChar_of_mem_toString hc
  · exact wordChar_of_mem_toString hc

theorem nftExpr_ne_empty (port : PortSpec) : port.nftExpr ≠ "" := by
  have hst : toString port.start.toNat ≠ "" := Nat.repr_ne_empty
  unfold PortSpec.nftExpr
  split
  · simp [String.append_eq_empty_iff]
  · exact hst

/-! ## The words of an expression -/

def exprWords : List String :=
  (match rule.protocol, rule.port with
    | some proto, some port => [proto.nftName, "dport", port.nftExpr]
    | some proto, none => [proto.nftName]
    | none, _ => []) ++
  match rule.source with
  | some src => ["ip", "saddr", src]
  | none => []

theorem renderExpr_eq : renderExpr rule = String.join ((exprWords rule).map (· ++ " ")) := by
  obtain ⟨id, zone, direction, action, protocol, port, source⟩ := rule
  have hdport (s : String) : " dport " ++ s = " " ++ ("dport " ++ s) := by
    rfl
  have hsaddr (s : String) : "ip saddr " ++ s = "ip " ++ ("saddr " ++ s) := by
    rfl
  cases protocol <;> cases port <;> cases source <;>
    simp [renderExpr, protocolExpr, portExpr, sourceExpr, exprWords, hdport, hsaddr,
      String.append_assoc, String.join_cons]

theorem exprTrees_eq : exprTrees rule = (exprWords rule).map word := by
  obtain ⟨id, zone, direction, action, protocol, port, source⟩ := rule
  cases protocol <;> cases port <;> cases source <;> rfl

variable {rule}

theorem plain_exprWords (h : PlainRule rule) :
    ∀ w ∈ exprWords rule, w ≠ "" ∧ ∀ c ∈ w.toList, wordChar c := by
  have hkw : ∀ w ∈ ["tcp", "udp", "icmp", "dport", "ip", "saddr"],
      w ≠ "" ∧ ∀ c ∈ w.toList, wordChar c := by
    simp [wordChar, delimiters]
  have hname (proto : Protocol) :
      proto.nftName ∈ ["tcp", "udp", "icmp", "dport", "ip", "saddr"] := by
    cases proto <;> decide
  intro w hw
  rcases mem_append.mp hw with hw | hw
  · split at hw
    · rename_i proto port _ _
      simp only [mem_cons, not_mem_nil, or_false] at hw
      rcases hw with rfl | rfl | rfl
      · exact hkw _ (hname proto)
      · exact hkw _ (by simp)
      · exact ⟨nftExpr_ne_empty port, fun c => wordChar_of_mem_nftExpr⟩
    · rename_i proto _ _
      rw [mem_singleton.mp hw]
      exact hkw _ (hname proto)
    · cases hw
  · split at hw
    · rename_i src hsrc
      simp only [mem_cons, not_mem_nil, or_false] at hw
      rcases hw with rfl | rfl | rfl
      · exact hkw _ (by simp)
      · exact hkw _ (by simp)
      · exact h _ hsrc
    · cases hw

theorem lexes_nftAction (action : Action) :
    Lexes (nftAction action ++ "\n") [.leaf (.word (nftAction action)), .leaf .sep] := by
  cases action <;> decide

theorem lexes_renderExpr (h : PlainRule rule) :
    Lexes (renderExpr rule) (flattenAll (exprTrees rule)) := by
  have htok (ws : List String) :
      flattenAll (ws.map word) = ws.flatMap fun w => [.leaf (.word w)] := by
    induction ws with
    | nil => rfl
    | cons w ws ih =>
      rw [map_cons, flattenAll, ih]
      rfl
  rw [renderExpr_eq, exprTrees_eq, htok]
  exact .flatMap fun w hw => .word (plain_exprWords h w hw).1 (plain_exprWords h w hw).2

theorem lexes_ruleText (h : PlainRule rule) :
    Lexes (renderRule rule ++ "\n") (flattenAll (ruleTrees rule ++ [sep])) := by
  have := (lexes_renderExpr h).append (lexes_nftAction rule.action)
  rw [ruleTrees, append_assoc, flattenAll_append]
  rwa [← String.append_assoc] at this

/-! ## The whole text -/

structure InputLine.Plain (line : InputLine) : Prop where
  names : ∀ n ∈ line.interfaces, PlainName n
  rule : ∀ r ∈ line.rule, PlainRule r

theorem lexes_line {line : InputLine} (h : line.Plain) :
    Lexes line.text (flattenAll (lineTrees line ++ [sep])) := by
  have hopen : Lexes "        iifname \x7b " [.leaf (.word "iifname"), .lbrace] := by decide
  have hcl : Lexes " \x7d " [.rbrace] := by decide
  have hset := (hopen.append (lexes_ifaceSet h.names)).append hcl
  obtain ⟨names, rule⟩ := line
  cases rule with
  | none =>
    have hacc : Lexes "accept\n" [.leaf (.word "accept"), .leaf .sep] := by decide
    have htext : InputLine.text ⟨names, none⟩ =
        "        iifname \x7b " ++ ifaceSet names ++ " \x7d " ++ "accept\n" :=
      String.append_assoc
    rw [htext]
    simpa [lineTrees, flattenAll, Tree.flatten, word, sep] using hset.append hacc
  | some r =>
    have htext : InputLine.text ⟨names, some r⟩ =
        "        iifname \x7b " ++ ifaceSet names ++ " \x7d " ++ (renderRule r ++ "\n") :=
      String.append_assoc
    rw [htext]
    simpa [lineTrees, flattenAll, Tree.flatten, word, sep] using
      hset.append (lexes_ruleText (h.rule r rfl))

def forwardTrees (pair : String × String) : List Tree :=
  [word "iifname", str pair.1, word "oifname", str pair.2, word "accept"]

theorem lexes_forwardText {pair : String × String} (h : PlainName pair.1 ∧ PlainName pair.2) :
    Lexes (forwardText pair) (flattenAll (forwardTrees pair ++ [sep])) := by
  have hin : Lexes "        iifname " [.leaf (.word "iifname")] := by decide
  have hout : Lexes " oifname " [.leaf (.word "oifname")] := by decide
  have hacc : Lexes " accept\n" [.leaf (.word "accept"), .leaf .sep] := by decide
  have htext : forwardText pair = "        iifname " ++ ("\"" ++ pair.1 ++ "\"") ++ " oifname " ++
      ("\"" ++ pair.2 ++ "\"") ++ " accept\n" := by
    have hfst : "        iifname \"" = "        iifname " ++ "\"" := by decide
    have hmid : "\" oifname \"" = "\"" ++ " oifname " ++ "\"" := by decide
    have hlast : "\" accept\n" = "\"" ++ " accept\n" := by decide
    unfold forwardText
    rw [hfst, hmid, hlast]
    simp only [String.append_assoc]
  rw [htext]
  exact (((hin.append (.str h.1)).append hout).append (.str h.2)).append hacc

theorem lexes_outputText (h : PlainRule rule) :
    Lexes (outputText rule) (flattenAll (ruleTrees rule ++ [sep])) := by
  have hbl : Lexes "        " [] := by decide
  have := hbl.append (lexes_ruleText h)
  rwa [← String.append_assoc] at this

def masqueradeTrees (iface : String) : List Tree := [word "oifname", str iface, word "masquerade"]

theorem lexes_masqueradeText {iface : String} (h : PlainName iface) :
    Lexes (masqueradeText iface) (flattenAll (masqueradeTrees iface ++ [sep])) := by
  have hout : Lexes "        oifname " [.leaf (.word "oifname")] := by decide
  have hmasq : Lexes " masquerade\n" [.leaf (.word "masquerade"), .leaf .sep] := by decide
  have htext : masqueradeText iface =
      "        oifname " ++ ("\"" ++ iface ++ "\"") ++ " masquerade\n" := by
    have hfst : "        oifname \"" = "        oifname " ++ "\"" := by decide
    have hlast : "\" masquerade\n" = "\"" ++ " masquerade\n" := by decide
    unfold masqueradeText
    rw [hfst, hlast]
    simp only [String.append_assoc]
  rw [htext]
  exact (hout.append (.str h)).append hmasq

/-! Each chain is a head with its name, a preamble and one statement on each further line. -/

def newline : List Tree := [sep]

def tableHead : List Tree := [sep, sep, word "table", word "inet", word tableName]

def inputHead : List Tree := [sep, word "chain", word "input"]

def inputPreamble : List Tree :=
  [sep, word "type", word "filter", word "hook", word "input", word "priority", word "0", sep,
    word "policy", word "drop", sep, sep,
    word "ct", word "state", word "established", .leaf .comma, word "related", word "accept", sep,
    word "ct", word "state", word "invalid", word "drop", sep,
    word "iifname", str "lo", word "accept", sep]

/-- The input chain with these statements for the zones. -/
def inputBody (stmts : List (List Tree)) : List Tree :=
  inputPreamble ++ stmts.flatMap fun st => st ++ [sep]

def forwardHead : List Tree := [sep, sep, word "chain", word "forward"]

def forwardPreamble : List Tree :=
  [sep, word "type", word "filter", word "hook", word "forward", word "priority", word "0", sep,
    word "policy", word "drop", sep, sep,
    word "ct", word "state", word "established", .leaf .comma, word "related", word "accept", sep]

def forwardBody (pairs : List (String × String)) : List Tree :=
  forwardPreamble ++ pairs.flatMap fun p => forwardTrees p ++ [sep]

def outputHead : List Tree := [sep, sep, word "chain", word "output"]

def outputPreamble : List Tree :=
  [sep, word "type", word "filter", word "hook", word "output", word "priority", word "0", sep,
    word "policy", word "accept", sep, sep]

def outputBody (rules : List Rule) : List Tree :=
  outputPreamble ++ rules.flatMap fun r => ruleTrees r ++ [sep]

def postroutingHead : List Tree := [sep, word "chain", word "postrouting"]

def postroutingPreamble : List Tree :=
  [sep, word "type", word "nat", word "hook", word "postrouting", word "priority", word "100", sep,
    sep]

def postroutingBody (ifaces : List String) : List Tree :=
  postroutingPreamble ++ ifaces.flatMap fun i => masqueradeTrees i ++ [sep]

def postroutingTrees (ifaces : List String) : List Tree :=
  if ifaces.isEmpty then [] else postroutingHead ++ .block (postroutingBody ifaces) :: newline

def tableBody (stmts : List (List Tree)) (outbound : List Rule) (ifaces : List String)
    (pairs : List (String × String)) : List Tree :=
  inputHead ++ .block (inputBody stmts) :: (forwardHead ++ .block (forwardBody pairs) ::
    (outputHead ++ .block (outputBody outbound) :: (newline ++ postroutingTrees ifaces)))

def rulesetTrees (stmts : List (List Tree)) (outbound : List Rule) (ifaces : List String)
    (pairs : List (String × String)) : List Tree :=
  tableHead ++ .block (tableBody stmts outbound ifaces pairs) :: newline

/-- Everything that is quoted or written as a word outside the lines of the zones is plain. -/
structure PlainRest (rules : List Rule) (ifaces : List String) (pairs : List (String × String)) :
    Prop where
  rules : ∀ r ∈ rules, PlainRule r
  masquerade : ∀ i ∈ ifaces, PlainName i
  forward : ∀ p ∈ pairs, PlainName p.1 ∧ PlainName p.2

/-- Everything that is quoted or written as a word is plain. -/
structure Plain (zones : List Zone) (rules : List Rule) (ifaces : List String)
    (pairs : List (String × String)) : Prop extends PlainRest rules ifaces pairs where
  zones : ∀ z ∈ zones, ∀ i ∈ z.interfaces, PlainName i

theorem mem_inputLines {line : InputLine} (h : line ∈ inputLines zones rules) :
    line.interfaces ≠ [] ∧ (∃ z ∈ zones, line.interfaces = z.interfaces) ∧
      ∀ r ∈ line.rule, r ∈ rules := by
  obtain ⟨z, hz, hline⟩ := mem_flatMap.mp h
  unfold zoneLines at hline
  split at hline
  · cases hline
  · rename_i hne
    have hne : z.interfaces ≠ [] := fun h => hne (by rw [h]; rfl)
    rcases mem_append.mp hline with hblk | hrule
    · split at hblk
      · obtain rfl := mem_singleton.mp hblk
        exact ⟨hne, ⟨z, hz, rfl⟩, fun r hr => (nomatch hr)⟩
      · cases hblk
    · obtain ⟨r, hr, rfl⟩ := mem_map.mp hrule
      refine ⟨hne, ⟨z, hz, rfl⟩, fun r' hr' => ?_⟩
      obtain rfl := Option.some.inj hr'
      exact (mem_filter.mp hr).1

theorem Plain.line (h : Plain zones rules ifaces pairs) {line : InputLine}
    (hline : line ∈ inputLines zones rules) : line.Plain := by
  obtain ⟨-, ⟨z, hz, hns⟩, hrule⟩ := mem_inputLines hline
  exact ⟨fun n hn => h.zones z hz n (hns ▸ hn), fun r hr => h.rules r (hrule r hr)⟩

theorem lexes_inputHeader :
    Lexes inputHeader (flattenAll tableHead ++
      .lbrace :: (flattenAll inputHead ++ .lbrace :: flattenAll inputPreamble)) := by
  have htab : ("table inet " ++ tableName ++ " \x7b\n").toList = _ := toList_append_of_eq
    (toList_append_of_eq String.toList_ofList String.toList_ofList) String.toList_ofList
  have hchs : inputHeader.toList = _ :=
    toList_append_of_eq (toList_append_of_eq (toList_append_of_eq (toList_append_of_eq
      (toList_append_of_eq (toList_append_of_eq (toList_append_of_eq String.toList_ofList
        String.toList_ofList) htab) String.toList_ofList) String.toList_ofList)
        String.toList_ofList) String.toList_ofList) String.toList_ofList
  exact .of_toList hchs (by decide +kernel)

theorem lexes_forwardHeader :
    Lexes forwardHeader (.rbrace :: (flattenAll forwardHead ++
      .lbrace :: flattenAll forwardPreamble)) := by
  have hchs : forwardHeader.toList = _ := toList_append_of_eq (toList_append_of_eq
    (toList_append_of_eq String.toList_ofList String.toList_ofList) String.toList_ofList)
    String.toList_ofList
  exact .of_toList hchs (by decide +kernel)

theorem lexes_outputHeader :
    Lexes outputHeader (.rbrace :: (flattenAll outputHead ++
      .lbrace :: flattenAll outputPreamble)) := by
  have hchs : outputHeader.toList = _ := toList_append_of_eq
    (toList_append_of_eq String.toList_ofList String.toList_ofList) String.toList_ofList
  exact .of_toList hchs (by decide +kernel)

theorem lexes_postroutingHeader :
    Lexes ("\n    chain postrouting \x7b\n" ++ "        type nat hook postrouting priority 100;\n")
      (flattenAll postroutingHead ++ .lbrace :: flattenAll postroutingPreamble) :=
  .of_toList (toList_append_of_eq String.toList_ofList String.toList_ofList) (by decide +kernel)

theorem lexes_render (h : PlainRest rules ifaces pairs) {stmts : List (List Tree)}
    (hls : Lexes (String.join ((inputLines zones rules).map InputLine.text))
      (flattenAll (stmts.flatMap fun st => st ++ [sep]))) :
    Lexes (render zones rules ifaces pairs)
      (flattenAll (rulesetTrees stmts (rules.filter fun r => r.direction = .outbound) ifaces
        pairs)) := by
  have hpairs := Lexes.flatMap fun p (hp : p ∈ pairs) => lexes_forwardText (h.forward p hp)
  have houts := Lexes.flatMap fun r (hr : r ∈ rules.filter fun r => r.direction = .outbound) =>
    lexes_outputText (h.rules r (mem_filter.mp hr).1)
  have hcl : Lexes "    \x7d\n" (.rbrace :: flattenAll newline) := by decide
  have hend : Lexes "\x7d\n" (.rbrace :: flattenAll newline) := by decide
  have hpost : Lexes (postroutingText ifaces) (flattenAll (postroutingTrees ifaces)) := by
    unfold postroutingText postroutingTrees
    split
    · decide
    · have hifaces := Lexes.flatMap fun i (hi : i ∈ ifaces) =>
        lexes_masqueradeText (h.masquerade i hi)
      have hall := (lexes_postroutingHeader.append hifaces).append hcl
      simpa only [postroutingBody, flattenAll_append, flattenAll_block, flattenAll_flatMap,
        append_assoc, cons_append] using hall
  unfold render
  have hall := (((((((lexes_inputHeader.append hls).append lexes_forwardHeader).append
    hpairs).append lexes_outputHeader).append houts).append hcl).append hpost).append hend
  simpa only [rulesetTrees, tableBody, inputBody, forwardBody, outputBody, flattenAll_append,
    flattenAll_block, flattenAll_flatMap, append_assoc, cons_append] using hall

theorem lexes_lines (h : ∀ line ∈ inputLines zones rules, line.Plain) :
    Lexes (String.join ((inputLines zones rules).map InputLine.text))
      (flattenAll (((inputLines zones rules).map lineTrees).flatMap fun st => st ++ [sep])) := by
  rw [flatMap_map, flattenAll_flatMap]
  exact .flatMap fun l hl => lexes_line (h l hl)

end MitosNetwork.Firewall
