import MitosNetwork.Common.Text
import MitosNetwork.Errors.Error

/-!
# Input validation

`src/security/validation.rs`: the checks on strings that end up in a configuration file, a control
command or a path. Lengths are counted in bytes. Identifiers, interface names, SSIDs and hardware
addresses that pass their check stay on one line.
-/

namespace MitosNetwork.Validation

/-- `validate_interface_name`; the kernel's `IFNAMSIZ` is 16 with the terminator. -/
def validateInterfaceName (name : String) : Result Unit :=
  if name.isEmpty ∨ 15 < name.utf8ByteSize then
    .error (.parse ("interface name '" ++ name ++ "' must be 1-15 characters"))
  else if '/' ∈ name.toList ∨ name.toList.any Text.isWhitespace ∨ name = "." ∨ name = ".." then
    .error (.parse ("interface name '" ++ name ++ "' contains invalid characters"))
  else .ok ()

/-- `validate_ssid`. -/
def validateSsid (ssid : String) : Result Unit :=
  if ssid.isEmpty ∨ 32 < ssid.utf8ByteSize then .error (.parse "SSID must be 1-32 bytes")
  else if '\x00' ∈ ssid.toList ∨ '\n' ∈ ssid.toList ∨ '"' ∈ ssid.toList then
    .error (.parse "SSID contains invalid characters")
  else .ok ()

/-- `validate_wpa_passphrase`. -/
def validateWpaPassphrase (pass : String) : Result Unit :=
  if pass.utf8ByteSize < 8 ∨ 63 < pass.utf8ByteSize then
    .error (.parse "WPA passphrase must be 8-63 characters")
  else if ¬pass.toList.all fun c => c.toNat < 128 then
    .error (.parse "WPA passphrase must be ASCII")
  else .ok ()

def isIdentifierChar (c : Char) : Bool :=
  Text.isAsciiAlphanumeric c || c == '-' || c == '_' || c == '.'

/-- `validate_identifier`. -/
def validateIdentifier (id : String) : Result Unit :=
  if id.isEmpty ∨ 64 < id.utf8ByteSize then
    .error (.parse ("identifier '" ++ id ++ "' must be 1-64 characters"))
  else if ¬id.toList.all isIdentifierChar then
    .error (.parse ("identifier '" ++ id ++ "' may only contain letters, digits, '-', '_', '.'"))
  else .ok ()

/-- `validate_mac_address`: six pairs of hexadecimal digits between colons. -/
def validateMacAddress (mac : String) : Result Unit :=
  let octets := mac.toList.splitOn ':'
  if octets.length = 6 ∧ octets.all fun o => o.length = 2 && o.all (Text.isDigit 16) then .ok ()
  else .error (.parse ("'" ++ mac ++ "' is not a valid MAC address"))

end MitosNetwork.Validation

namespace MitosNetwork

open Validation

/-! ## Texts of one line -/

/-- The text holds no newline. -/
def OneLine (s : String) : Prop := '\n' ∉ s.toList

instance (s : String) : Decidable (OneLine s) := inferInstanceAs (Decidable ('\n' ∉ s.toList))

theorem OneLine.append {s t : String} (hs : OneLine s) (ht : OneLine t) : OneLine (s ++ t) := by
  rw [OneLine, String.toList_append, List.mem_append]
  exact fun h => h.elim hs ht

theorem of_validateIdentifier {id : String} (h : validateIdentifier id = .ok ()) :
    id.toList ≠ [] ∧ ∀ c ∈ id.toList, isIdentifierChar c = true := by
  unfold validateIdentifier at h
  split at h
  · cases h
  · split at h
    · cases h
    · rename_i hsize hall
      rw [not_not, List.all_eq_true] at hall
      refine ⟨fun hnil => hsize (.inl ?_), hall⟩
      have hid : id = "" := String.toList_inj.mp hnil
      rw [hid]
      rfl

theorem oneLine_of_validateIdentifier {id : String} (h : validateIdentifier id = .ok ()) :
    OneLine id := fun hmem => Bool.noConfusion ((of_validateIdentifier h).2 '\n' hmem)

theorem of_validateInterfaceName {name : String} (h : validateInterfaceName name = .ok ()) :
    ¬('/' ∈ name.toList ∨ name.toList.any Text.isWhitespace ∨ name = "." ∨ name = "..") := by
  unfold validateInterfaceName at h
  split at h
  · cases h
  · split at h
    · cases h
    · assumption

theorem oneLine_of_validateInterfaceName {name : String} (h : validateInterfaceName name = .ok ()) :
    OneLine name := by
  intro hmem
  apply of_validateInterfaceName h
  exact .inr (.inl (List.any_eq_true.mpr ⟨'\n', hmem, rfl⟩))

theorem oneLine_of_validateSsid {ssid : String} (h : validateSsid ssid = .ok ()) :
    OneLine ssid := by
  unfold validateSsid at h
  split at h
  · cases h
  · split at h
    · cases h
    · rename_i hchs
      exact fun hmem => hchs (.inr (.inl hmem))

theorem oneLine_of_validateMacAddress {mac : String} (h : validateMacAddress mac = .ok ()) :
    OneLine mac := by
  simp only [validateMacAddress] at h
  split at h
  · rename_i hoct
    intro hmem
    obtain ⟨octet, hoctet, hchar⟩ := Lines.exists_mem_splitOn hmem (by decide : '\n' ≠ ':')
    have hdig := List.all_eq_true.mp hoct.2 octet hoctet
    rw [Bool.and_eq_true] at hdig
    exact Bool.noConfusion (List.all_eq_true.mp hdig.2 '\n' hchar)
  · cases h

end MitosNetwork
