import Mathlib.Data.Nat.Notation

/-!
# Errors

`src/errors/error.rs`: one error type for the whole daemon. The payload carries the detail; an I/O
error is known by its message.
-/

namespace MitosNetwork

inductive NetworkError where
  | io (message : String)
  | netlink (message : String)
  | device (message : String)
  | config (message : String)
  | dhcp (message : String)
  | dns (message : String)
  | wifi (message : String)
  | vpn (message : String)
  | firewall (message : String)
  | notFound (message : String)
  | permissionDenied (message : String)
  | timeout (message : String)
  | invalidState (message : String)
  | parse (message : String)
  | other (message : String)
deriving DecidableEq

/-- `errors::Result`. -/
abbrev Result (α : Type) := Except NetworkError α

instance decidableEqExcept {ε α : Type} [DecidableEq ε] [DecidableEq α] :
    DecidableEq (Except ε α)
  | .ok a, .ok b => decidable_of_iff (a = b) ⟨congrArg _, Except.ok.inj⟩
  | .error e, .error f => decidable_of_iff (e = f) ⟨congrArg _, Except.error.inj⟩
  | .ok _, .error _ => isFalse nofun
  | .error _, .ok _ => isFalse nofun

namespace NetworkError

/-- The text of `Display`, which is what a client reads in a `Response::Error`. -/
def display : NetworkError → String
  | io m => "I/O error: " ++ m
  | netlink m => "netlink error: " ++ m
  | device m => "device error: " ++ m
  | config m => "configuration error: " ++ m
  | dhcp m => "DHCP error: " ++ m
  | dns m => "DNS error: " ++ m
  | wifi m => "Wi-Fi error: " ++ m
  | vpn m => "VPN error: " ++ m
  | firewall m => "firewall error: " ++ m
  | notFound m => "not found: " ++ m
  | permissionDenied m => "permission denied: " ++ m
  | timeout m => "operation timed out: " ++ m
  | invalidState m => "invalid state: " ++ m
  | parse m => "parse error: " ++ m
  | other m => m

end NetworkError

theorem of_bind_eq_ok {α β : Type} {m : Result α} {f : α → Result β} {b : β}
    (h : m >>= f = .ok b) : ∃ a, m = .ok a ∧ f a = .ok b := by
  cases m with
  | error e => cases h
  | ok a => exact ⟨a, rfl, h⟩

end MitosNetwork
