import Reactor.Connector
import Reactor.TcpServer

/-!
# Names of a client's connections

`TcpClient::newConnection` formats the peer's address and the connection's id into 32 bytes, behind
the name of the client.  The ten digits of an `int` fit behind an address text of at most 19
characters only.  A longer one (the port of an IPv4 address can do it, and most IPv6 addresses do)
cuts digits off, so that two connections of the client can have one name.  `TcpServer` formats
the same text into 64 bytes.
-/

namespace Reactor

namespace TcpClient

namespace Names

/-- `newConnection` up to the name of the connection; `name` is the client's `name_` and `peerAddr`
what `getPeerAddr` gives for the socket. -/
def newConnection (ntop : InetNtop) (name : Bytes) (peerAddr : InetAddress) (t : TcpClient) :
    Except Fault (Bytes × TcpClient) := do
  let ipPort ← peerAddr.toIpPort ntop
  let buf := snprintf 32 (ascii ":" ++ cString ipPort ++ ascii "#" ++ decimal t.nextConnId)
  return (name ++ buf, t.newConnection)

/-- The client's connections to `peerAddr` with different ids of an `int` have different names. -/
def Distinct (ntop : InetNtop) (name : Bytes) (peerAddr : InetAddress) : Prop :=
  ∀ (t₁ t₂ t₁' t₂' : TcpClient) (conn₁ conn₂ : Bytes),
    1 ≤ t₁.nextConnId → t₁.nextConnId < 2 ^ 31 → 1 ≤ t₂.nextConnId → t₂.nextConnId < 2 ^ 31 →
    t₁.nextConnId ≠ t₂.nextConnId → newConnection ntop name peerAddr t₁ = .ok (conn₁, t₁') →
    newConnection ntop name peerAddr t₂ = .ok (conn₂, t₂') → conn₁ ≠ conn₂

/-- The text of an address is a C string. -/
theorem cString_toIpPort {ntop : InetNtop} {a : InetAddress} {text : Bytes}
    (h : a.toIpPort ntop = .ok text) : cString text = text := by
  unfold InetAddress.toIpPort at h
  dsimp only at h
  obtain ⟨ip, -, h⟩ := bind_eq_ok.1 h
  obtain ⟨-, h⟩ := check_bind_eq_ok.1 h
  obtain rfl := Except.ok.inj h
  have hip : 0 ∉ cString ip := fun h0 => by
    have hp := List.mem_takeWhile_imp h0
    simp at hp
  have hport : 0 ∉ snprintf (64 - (cString ip).length) (ascii ":" ++ decimal a.port.toNat) := by
    intro h0
    rcases List.mem_append.1 (List.mem_of_mem_take h0) with h0 | h0
    · revert h0
      decide
    · exact absurd (digit_of_mem_decimal h0).1 (by decide)
  rw [cString_eq_self_iff, List.mem_append, not_or]
  exact ⟨hip, hport⟩

/-- What stands in front of the id, and the digits that are left of it. -/
theorem newConnection_eq {ntop : InetNtop} {peerAddr : InetAddress} {text : Bytes}
    (h : peerAddr.toIpPort ntop = .ok text) (name : Bytes) (t : TcpClient) :
    newConnection ntop name peerAddr t =
      .ok (name ++ ((ascii ":" ++ text ++ ascii "#").take 31 ++
        (decimal t.nextConnId).take (29 - text.length)), t.newConnection) := by
  have hlen : 32 - 1 - (ascii ":" ++ text ++ ascii "#").length = 29 - text.length := by
    have hcolon : (ascii ":").length = 1 := by decide
    have hhash : (ascii "#").length = 1 := by decide
    simp only [List.length_append, hcolon, hhash]
    omega
  unfold newConnection
  rw [h, ok_bind]
  dsimp only
  rw [cString_toIpPort h, snprintf, List.take_append, hlen]
  rfl

/-- Two names differ in the digits that are left. -/
theorem name_eq_iff {ntop : InetNtop} {peerAddr : InetAddress} {text name : Bytes}
    (h : peerAddr.toIpPort ntop = .ok text) {t₁ t₂ t₁' t₂' : TcpClient} {conn₁ conn₂ : Bytes}
    (h₁ : newConnection ntop name peerAddr t₁ = .ok (conn₁, t₁'))
    (h₂ : newConnection ntop name peerAddr t₂ = .ok (conn₂, t₂')) :
    conn₁ = conn₂ ↔ (decimal t₁.nextConnId).take (29 - text.length) =
      (decimal t₂.nextConnId).take (29 - text.length) := by
  rw [newConnection_eq h] at h₁ h₂
  obtain ⟨rfl, -⟩ := Prod.mk.inj (Except.ok.inj h₁)
  obtain ⟨rfl, -⟩ := Prod.mk.inj (Except.ok.inj h₂)
  rw [List.append_right_inj, List.append_right_inj]

/-- With nine digits left or fewer, a billion and its successor are not told apart. -/
theorem take_billion {k : ℕ} (hk : k ≤ 9) :
    (decimal 1000000000).take k = (decimal 1000000001).take k := by
  have hnine : (decimal 1000000000).take 9 = (decimal 1000000001).take 9 := by decide +kernel
  have hcut := congrArg (List.take k) hnine
  rw [List.take_take, List.take_take, Nat.min_eq_left hk] at hcut
  exact hcut

/-- Every connection gets a name, and the names of two connections differ exactly when the digits of
their ids differ that the 31 characters have room for.  All of an `int`'s ids are told apart exactly
when the text of the address has at most 19 characters. -/
theorem distinct_iff (ntop : InetNtop) (name : Bytes) (peerAddr : InetAddress) :
    ∃ text, peerAddr.toIpPort ntop = .ok text ∧
      (∀ t, ∃ conn, newConnection ntop name peerAddr t = .ok (conn, t.newConnection)) ∧
      (∀ t₁ t₂ t₁' t₂' conn₁ conn₂, newConnection ntop name peerAddr t₁ = .ok (conn₁, t₁') →
        newConnection ntop name peerAddr t₂ = .ok (conn₂, t₂') →
        (conn₁ ≠ conn₂ ↔ (decimal t₁.nextConnId).take (29 - text.length) ≠
          (decimal t₂.nextConnId).take (29 - text.length))) ∧
      (Distinct ntop name peerAddr ↔ text.length ≤ 19) := by
  obtain ⟨text, htext, -⟩ := peerAddr.length_toIpPort ntop
  refine ⟨text, htext, fun t => ⟨_, newConnection_eq htext name t⟩, ?_, ?_, ?_⟩
  · intro t₁ t₂ t₁' t₂' conn₁ conn₂ h₁ h₂
    exact not_congr (name_eq_iff htext h₁ h₂)
  · intro hdistinct
    by_contra hlong
    let t₁ : TcpClient := { TcpClient.new with nextConnId := 1000000000 }
    let t₂ : TcpClient := { TcpClient.new with nextConnId := 1000000001 }
    have h₁ := newConnection_eq htext name t₁
    have h₂ := newConnection_eq htext name t₂
    refine hdistinct t₁ t₂ _ _ _ _ (by decide) (by decide) (by decide) (by decide) (by decide) h₁ h₂
      ((name_eq_iff htext h₁ h₂).2 (take_billion ?_))
    omega
  · intro hshort t₁ t₂ t₁' t₂' conn₁ conn₂ _ hid₁ _ hid₂ hne h₁ h₂ heq
    have hdec : ∀ id < 2 ^ 31, (decimal id).take (29 - text.length) = decimal id := by
      intro id hid
      have hten : (decimal id).length ≤ 10 :=
        length_decimal_le (by decide) (Nat.lt_of_lt_of_le hid (by decide))
      exact List.take_of_length_le (by omega)
    have hdigits := (name_eq_iff htext h₁ h₂).1 heq
    rw [hdec _ hid₁, hdec _ hid₂] at hdigits
    exact hne (decimal_injective hdigits)

/-- Port 8080 of `2001:db8:1111:2222:3333:4444:5555:6666`. -/
def inet6Server : InetAddress := .inet6 0x20010db8111122223333444455556666 8080

/-- The text of the address has 43 characters, so nothing is left of the id: the first two
connections of a client have one name. -/
theorem not_distinct :
    ¬ ∀ (ntop : InetNtop) (name : Bytes) (peerAddr : InetAddress), Distinct ntop name peerAddr := by
  intro h
  have hname : ((newConnection InetNtop.numeric (ascii "client") inet6Server
      TcpClient.new).toOption.map Prod.fst) =
      ((newConnection InetNtop.numeric (ascii "client") inet6Server
      TcpClient.new.newConnection).toOption.map Prod.fst) := by decide +kernel
  obtain ⟨text, htext, -⟩ := inet6Server.length_toIpPort InetNtop.numeric
  have h₁ := newConnection_eq htext (ascii "client") TcpClient.new
  have h₂ := newConnection_eq htext (ascii "client") TcpClient.new.newConnection
  rw [h₁, h₂] at hname
  exact h InetNtop.numeric (ascii "client") inet6Server _ _ _ _ _ _ (by decide) (by decide)
    (by decide) (by decide) (by decide) h₁ h₂ (Option.some.inj hname)

end Names

end TcpClient

end Reactor
