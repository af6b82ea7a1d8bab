import Mathlib.Data.List.DropRight
import Mathlib.Data.List.Nodup
import MitosNetwork.Common.Utf8
import MitosNetwork.Security.Validation

/-!
# Waiting for an association

`wait_for_association` of `src/wifi/wifi.rs` over the replies that `WpaCtrl::status` of
`src/wifi/wpa.rs` reads. wpa_supplicant prints an SSID with escapes. The loop compares what is
printed with the SSID itself, so an SSID that is not plain ASCII is never recognised.
-/

namespace MitosNetwork.Wifi

open List Text Validation

/-! ## The loop -/

/-- `WpaCtrl::request` on this reply. -/
def replyText (reply : List UInt8) : List Char :=
  (Utf8.lossy (reply.take 8192)).toList.rdropWhile isWhitespace

/-- `WpaCtrl::status`: the pairs that are collected. -/
def status (reply : List UInt8) : List (List Char × List Char) :=
  (lines (String.ofList (replyText reply))).filterMap (splitOnce '=')

section Printed

variable {ssid : List Char} {c : Char}

end Printed

/-! ## Reading a reply -/

def statusLine (f : List Char × List Char) : List Char := f.1 ++ '=' :: f.2

section Reading

variable {fields : List (List Char × List Char)} {reply : List UInt8}

end Reading

end MitosNetwork.Wifi
