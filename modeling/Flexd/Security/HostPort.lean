import Flexd.Lib.IpText
import Flexd.Resolver

/-!
# Splitting what is joined

`splitHostPort` takes apart what hosts and ports are joined to, in each of its
forms: a host with a port, a bracketed one, and an IPv6 literal by itself. So
the host of a socket address is read back as its address, and the filters see
the address that is connected to.
-/

namespace Flexd

open Lib

/-- The text of a socket address: an IPv6 address is in brackets. -/
def SocketAddr.text (sa : SocketAddr) : Text :=
  match sa.ip with
  | .v4 ip => ip.text ++ ':' :: decimal sa.port.toNat
  | .v6 ip => '[' :: ip.text ++ ']' :: ':' :: decimal sa.port.toNat

/-! ## Without brackets -/

theorem splitHostPort_of_head {addr : Text} (h : addr.head? ≠ some '[') :
    splitHostPort addr =
      if 1 < addr.count ':' then (addr, none)
      else
        match rsplitOnce ':' addr with
        | some (host, port) =>
          match parseU16 port with
          | some p => (host, some p)
          | none => (addr, none)
        | none => (addr, none) := by
  unfold splitHostPort
  split
  · exact absurd rfl h
  · rfl

/-- A bare IPv6 literal, or whatever has two colons. -/
theorem splitHostPort_colons {addr : Text} (hcolons : 2 ≤ addr.count ':')
    (h : addr.head? ≠ some '[') : splitHostPort addr = (addr, none) := by
  rw [splitHostPort_of_head h]
  exact if_pos hcolons

theorem splitHostPort_host {host : Text} (hcolon : ':' ∉ host) (h : host.head? ≠ some '[') :
    splitHostPort host = (host, none) := by
  have hfew : ¬ 1 < host.count ':' := by
    rw [List.count_eq_zero.mpr hcolon]
    decide
  rw [splitHostPort_of_head h, if_neg hfew, rsplitOnce_eq_none.mpr hcolon]

theorem splitHostPort_port {host port : Text} {p : UInt16} (hcolon : ':' ∉ host)
    (h : host.head? ≠ some '[') (hp : parseU16 port = some p) :
    splitHostPort (host ++ ':' :: port) = (host, some p) := by
  have hport : ':' ∉ port := not_mem_of_parseU16 hp (by decide) (by decide)
  have hhead : (host ++ ':' :: port).head? ≠ some '[' := by
    cases host with
    | nil => simp
    | cons c host => exact h
  have hone : (host ++ ':' :: port).count ':' = 1 := by
    rw [List.count_append, List.count_cons_self, List.count_eq_zero.mpr hcolon,
      List.count_eq_zero.mpr hport]
  have hsplit : rsplitOnce ':' (host ++ ':' :: port) = some (host, port) :=
    rsplitOnce_eq_some.mpr ⟨rfl, hport⟩
  rw [splitHostPort_of_head hhead, hone, hsplit]
  simp only [Nat.lt_irrefl, if_false, hp]

/-! ## Brackets -/

/-- What is in the brackets is the host, whatever it is. -/
theorem splitHostPort_bracket {host : Text} (h : ']' ∉ host) (rest : Text) :
    splitHostPort ('[' :: host ++ ']' :: rest) =
      (host, match rest with
        | ':' :: p => parseU16 p
        | _ => none) := by
  have hmem : ']' ∈ host ++ ']' :: rest := by simp
  have hdrop : (host ++ ']' :: rest).dropWhile (· ≠ ']') = ']' :: rest := by
    rw [(span_append_of_not_mem h _).2]
    simp
  show splitHostPort ('[' :: (host ++ ']' :: rest)) = _
  rw [splitHostPort, if_pos hmem, takeWhile_ne_append h, hdrop]
  rfl

/-! ## Socket addresses -/

theorem not_mem_ipText {c : Char} (h : isIpChar c = false) (ip : IpAddr) : c ∉ ip.text := by
  intro hc
  rw [ip.text_isIpChar c hc] at h
  cases h

theorem colon_not_mem_v4Text (ip : Ipv4Addr) : ':' ∉ ip.text :=
  parseIp_v4_no_colon (parseIp_text (.v4 ip))

theorem parseIp_splitHostPort (sa : SocketAddr) :
    parseIp (splitHostPort sa.text).1 = some sa.ip := by
  obtain ⟨ip, port⟩ := sa
  cases ip with
  | v4 ip =>
    have hbracket : ip.text.head? ≠ some '[' := fun hhead =>
      not_mem_ipText (c := '[') (by decide) (.v4 ip) (List.mem_of_mem_head? hhead)
    rw [SocketAddr.text,
      splitHostPort_port (colon_not_mem_v4Text ip) hbracket (parseU16_decimal port)]
    exact parseIp_text (.v4 ip)
  | v6 ip =>
    have hbracket : ']' ∉ ip.text := not_mem_ipText (by decide) (.v6 ip)
    rw [SocketAddr.text, splitHostPort_bracket hbracket]
    exact parseIp_text (.v6 ip)

/-- **Splitting undoes joining**: a host that could not be taken for another form is split from its
port, in brackets or not, and is left alone without one; a text with two colons is all host; and
the host of a socket address is the text of its address. -/
theorem splitHostPort_joined :
    (∀ (host : Text) (p : UInt16), ':' ∉ host → host.head? ≠ some '[' →
      splitHostPort (host ++ ':' :: decimal p.toNat) = (host, some p) ∧
      splitHostPort host = (host, none)) ∧
    (∀ (host : Text) (p : UInt16), ']' ∉ host →
      splitHostPort ('[' :: host ++ ']' :: ':' :: decimal p.toNat) = (host, some p) ∧
      splitHostPort ('[' :: host ++ [']']) = (host, none)) ∧
    (∀ addr : Text, 2 ≤ addr.count ':' → addr.head? ≠ some '[' →
      splitHostPort addr = (addr, none)) ∧
    ∀ sa : SocketAddr, parseIp (splitHostPort sa.text).1 = some sa.ip := by
  refine ⟨fun host p hcolon h => ?_, fun host p h => ?_, fun addr => splitHostPort_colons,
    parseIp_splitHostPort⟩
  · exact ⟨splitHostPort_port hcolon h (parseU16_decimal p), splitHostPort_host hcolon h⟩
  · refine ⟨?_, splitHostPort_bracket h []⟩
    rw [splitHostPort_bracket h]
    exact congrArg _ (parseU16_decimal p)

end Flexd
