import Laio.NetIpOrders

/-! # Addresses of both families in one container

The comparisons between the families are constant: every IPv4 address is below every IPv6
address, and none is equal to one. -/
namespace NetIpMixedOrder

open LibOrders NetIpv6Addr NetIpv4Addr NetIpNumbers NetIpOrders

/-- `Ipv4Addr::operator==` and `operator<` with an IPv6 address, and then the other way
round. -/
def eqIpv6 (_ : Ipv4Addr) (_ : Ipv6Addr) : Bool := false

def ltIpv6 (_ : Ipv4Addr) (_ : Ipv6Addr) : Bool := true

def eqIpv4 (_ : Ipv6Addr) (_ : Ipv4Addr) : Bool := false

def ltIpv4 (_ : Ipv6Addr) (_ : Ipv4Addr) : Bool := false

abbrev IpAddr := Ipv4Addr ⊕ Ipv6Addr

/-- The operator that the two families select. -/
def lt : IpAddr → IpAddr → Bool
  | .inl lhs, .inl rhs => lhs.lt rhs
  | .inl lhs, .inr rhs => ltIpv6 lhs rhs
  | .inr lhs, .inl rhs => ltIpv4 lhs rhs
  | .inr lhs, .inr rhs => lhs.lt rhs

def equal : IpAddr → IpAddr → Bool
  | .inl lhs, .inl rhs => lhs == rhs
  | .inl lhs, .inr rhs => eqIpv6 lhs rhs
  | .inr lhs, .inl rhs => eqIpv4 lhs rhs
  | .inr lhs, .inr rhs => lhs == rhs

theorem lt_eq_lex : (fun lhs rhs => lt lhs rhs = true) =
    Sum.Lex (fun lhs rhs : Ipv4Addr => lhs.lt rhs = true)
      fun lhs rhs : Ipv6Addr => lhs.lt rhs = true := by
  funext lhs rhs
  cases lhs <;> cases rhs <;> simp [lt, ltIpv6, ltIpv4]

theorem equal_eq_liftRel : (fun lhs rhs => equal lhs rhs = true) =
    Sum.LiftRel (fun lhs rhs : Ipv4Addr => lhs = rhs)
      fun lhs rhs : Ipv6Addr => (lhs == rhs) = true := by
  funext lhs rhs
  cases lhs <;> cases rhs <;> simp [equal, eqIpv6, eqIpv4]

theorem ipv4_keyOrder_iff (S : Set Ipv4Addr) :
    KeyOrder S (fun lhs rhs => lhs.lt rhs = true) (fun lhs rhs => lhs = rhs) ↔
      ∀ lhs ∈ S, ∀ rhs ∈ S, lhs ≠ rhs → lhs.lt rhs = true ∨ rhs.lt lhs = true :=
  keyOrder_iff_comparable ipv4_lt_irrefl ipv4_lt_trans

/-- The tests of the source hold for one of the two addresses in place of the other. -/
def OctetsComparable (lhs rhs : Ipv4Addr) : Prop :=
  let (a, b, c, d) := lhs.octets
  let (a', b', c', d') := rhs.octets
  a ≤ b' ∧ b ≤ b' ∧ c ≤ c' ∧ d < d' ∨ a' ≤ b ∧ b' ≤ b ∧ c' ≤ c ∧ d' < d

theorem comparable_iff (lhs rhs : Ipv4Addr) :
    lhs.lt rhs = true ∨ rhs.lt lhs = true ↔ OctetsComparable lhs rhs := by
  simp [Ipv4Addr.lt, OctetsComparable, and_assoc]

theorem lt_irrefl (x : IpAddr) : ¬lt x x = true := by
  cases x with
  | inl addr => exact ipv4_lt_irrefl addr
  | inr addr => simp [lt, ipv6_lt_iff]

theorem lt_trans (x y z : IpAddr) (hxy : lt x y = true) (hyz : lt y z = true) :
    lt x z = true := by
  rcases x with x | x <;> rcases y with y | y <;> rcases z with z | z
  · exact ipv4_lt_trans x y z hxy hyz
  · rfl
  · cases hyz
  · rfl
  · cases hxy
  · cases hxy
  · cases hyz
  · simp only [lt, ipv6_lt_iff] at hxy hyz ⊢
    exact Nat.lt_trans hxy hyz

/-- The four overloads form a strict partial order with the IPv4 addresses first. They can be
relied on for the keys of a sorted container exactly if the octets of any two different IPv4
addresses among the keys are comparable; IPv6 keys need no condition. -/
theorem mixed_key_order_iff :
    (∀ x, ¬lt x x = true) ∧ (∀ x y z, lt x y = true → lt y z = true → lt x z = true) ∧
    (∀ (v : Ipv4Addr) (a : Ipv6Addr), lt (.inl v) (.inr a) = true ∧ lt (.inr a) (.inl v) = false) ∧
    ∀ S : Set IpAddr,
      KeyOrder S (fun lhs rhs => lt lhs rhs = true) (fun lhs rhs => equal lhs rhs = true) ↔
        ∀ lhs rhs : Ipv4Addr, .inl lhs ∈ S → .inl rhs ∈ S → lhs ≠ rhs →
          OctetsComparable lhs rhs := by
  refine ⟨lt_irrefl, lt_trans, fun v a => ⟨rfl, rfl⟩, fun S => ?_⟩
  have hipv6 : KeyOrder (Set.preimage Sum.inr S) (fun lhs rhs : Ipv6Addr => lhs.lt rhs = true)
      (fun lhs rhs => (lhs == rhs) = true) :=
    ReadsOff.keyOrder ⟨fun lhs _ rhs _ => ipv6_lt_iff lhs rhs,
      fun lhs _ rhs _ => ipv6_readsOff.eq_iff lhs trivial rhs trivial⟩
  rw [lt_eq_lex, equal_eq_liftRel, keyOrder_sum_iff, and_iff_left hipv6, ipv4_keyOrder_iff]
  constructor
  · intro h lhs rhs hl hr hne
    exact (comparable_iff lhs rhs).mp (h lhs hl rhs hr hne)
  · intro h lhs hl rhs hr hne
    exact (comparable_iff lhs rhs).mpr (h lhs rhs hl hr hne)

end NetIpMixedOrder
