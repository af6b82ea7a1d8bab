import MitosNetwork.Common.Text

/-!
# Wi-Fi networks

`src/wifi/security.rs` and the scan-result table of `src/wifi/network.rs`.
-/

namespace MitosNetwork

inductive SecurityType where
  | open
  | wep
  | wpaPsk
  | wpa2Psk
  | wpa3Sae
  | wpaEnterprise
  | wpa3Enterprise
deriving DecidableEq

namespace SecurityType

/-- `is_enterprise`. -/
def isEnterprise : SecurityType → Bool
  | wpaEnterprise => true
  | wpa3Enterprise => true
  | _ => false

/-- `from_flags`: the strongest option the capability flags offer. -/
def fromFlags (flags : List Char) : SecurityType :=
  let has := fun needle : String => Text.contains needle.toList flags
  if has "SAE" then (if has "EAP" then wpa3Enterprise else wpa3Sae)
  else if has "EAP" then wpaEnterprise
  else if has "WPA2" || has "RSN" then wpa2Psk
  else if has "WPA" then wpaPsk
  else if has "WEP" then wep
  else .open

end SecurityType

structure WifiNetwork where
  ssid : String
  bssid : String
  frequencyMhz : UInt32
  signalDbm : ℤ
  security : SecurityType
deriving DecidableEq

namespace WifiNetwork

/-- One line of the table; a line without an SSID is a hidden network and gives nothing. -/
def parseLine (line : List Char) : Option WifiNetwork :=
  match line.splitOn '\t' with
  | bssid :: frequency :: signal :: flags :: rest => do
    let frequencyMhz ← Text.parseU32 frequency
    let signalDbm ← Text.parseI32 signal
    let ssid := rest.headD []
    if ssid.isEmpty then none
    else
      some
        { ssid := String.ofList ssid
          bssid := String.ofList bssid
          frequencyMhz
          signalDbm
          security := .fromFlags flags }
  | _ => none

/-- `parse_scan_results`: the lines after the header. -/
def parseScanResults (raw : String) : List WifiNetwork :=
  ((Text.lines raw).drop 1).filterMap parseLine

example : (parseScanResults ("bssid / frequency\n" ++ "aa:bb\t2412\t-45\t[WPA2-PSK]\tHomeNet\n" ++
    "11:22\t5180\t-60\t[SAE]\tCafe\n")).map (fun n => (n.ssid, n.security)) =
      [("HomeNet", .wpa2Psk), ("Cafe", .wpa3Sae)] := by decide +kernel

end WifiNetwork

end MitosNetwork
