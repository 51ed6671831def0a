import Sitas.Lib.Layout

/-! Socket addresses of UDP sockets in memory. -/
namespace Sitas.Executor.Udp
open Sitas.Lib Word List

inductive Target where
  | linux
  | other

inductive SocketAddr where
  | v4 (ip : Fin 4 → Byte) (port : Word 2)
  | v6 (ip : Fin 16 → Byte) (port : Word 2) (flowinfo scopeId : Word 4)

def SocketAddr.port : SocketAddr → Word 2
  | .v4 _ port | .v6 _ port _ _ => port

def afInet : Nat := 2

def afInet6 : Target → Nat
  | .linux => 10
  | .other => 30

/-- What precedes the port: the family, or the length and the family. -/
def Header : Target → Type
  | .linux => Word 2
  | .other => Byte × Byte

structure SockAddrIn (target : Target) where
  header : Header target
  sinPort : Word 2
  sinAddr : Word 4
  sinZero : Fin 8 → Byte

structure SockAddrIn6 (target : Target) where
  header : Header target
  sin6Port : Word 2
  sin6Flowinfo : Word 4
  sin6Addr : Fin 16 → Byte
  sin6ScopeId : Word 4

inductive BindSockAddr (target : Target) where
  | v4 (sin : SockAddrIn target)
  | v6 (sin6 : SockAddrIn6 target)

variable {target : Target} (e : Endian)

namespace Header

def new (len family : Nat) : (target : Target) → Header target
  | .linux => Fin.ofNat (256 ^ 2) family
  | .other => (Fin.ofNat 256 len, Fin.ofNat 256 family)

def family : {target : Target} → Header target → Nat
  | .linux, family => Fin.val family
  | .other, header => header.2

def layout : (target : Target) → Layout (Header target) 2
  | .linux => neBytes e
  | .other => (finTwoArrowEquiv Byte).symm

theorem family_new (len family : Nat) (h : family < 256) :
    (new len family target).family = family := by
  cases target with
  | linux => exact Nat.mod_eq_of_lt (by omega)
  | other => exact Nat.mod_eq_of_lt h

end Header

def SockAddrIn.layout : Layout (SockAddrIn target) 16 :=
  .trans ⟨fun s => (s.header, s.sinPort, s.sinAddr, s.sinZero), fun (h, p, a, z) => ⟨h, p, a, z⟩,
    fun _ => rfl, fun _ => rfl⟩
    ((Header.layout e target).pair ((neBytes e).pair ((neBytes e).pair (.refl _))))

def SockAddrIn6.layout : Layout (SockAddrIn6 target) 28 :=
  .trans ⟨fun s => (s.header, s.sin6Port, s.sin6Flowinfo, s.sin6Addr, s.sin6ScopeId),
    fun (h, p, f, a, i) => ⟨h, p, f, a, i⟩, fun _ => rfl, fun _ => rfl⟩
    ((Header.layout e target).pair
      ((neBytes e).pair ((neBytes e).pair (.pair (.refl _) (neBytes e)))))

theorem SockAddrIn.prefix_layout (s : SockAddrIn target) :
    ofFn (Header.layout e target s.header) <+: ofFn (layout e s) :=
  Layout.prefix_pair _ _ (s.header, _)

theorem SockAddrIn6.prefix_layout (s : SockAddrIn6 target) :
    ofFn (Header.layout e target s.header) <+: ofFn (layout e s) :=
  Layout.prefix_pair _ _ (s.header, _)

namespace BindSockAddr

def new (target : Target) : SocketAddr → BindSockAddr target
  | .v4 ip port => .v4 ⟨.new 16 afInet target, toBe e port, (neBytes e).symm ip, fun _ => 0⟩
  | .v6 ip port flowinfo scopeId =>
    .v6 ⟨.new 28 (afInet6 target) target, toBe e port, flowinfo, ip, scopeId⟩

/-- The bytes behind the pointer, as many as the length says. -/
def asPtrLen : BindSockAddr target → List Byte
  | .v4 sin => ofFn (SockAddrIn.layout e sin)
  | .v6 sin6 => ofFn (SockAddrIn6.layout e sin6)

end BindSockAddr

abbrev SockAddrStorage := Fin 128 → Byte

namespace SockAddrStorage

def place (s : SockAddrStorage) (bytes : List Byte) : SockAddrStorage :=
  fun i => bytes[i.val]?.getD (s i)

def read {α : Type} {n : Nat} (s : SockAddrStorage) (layout : Layout α n) (h : n ≤ 128) : α :=
  layout.symm (s ∘ Fin.castLE h)

theorem read_place {α : Type} {n : Nat} {layout : Layout α n} {h : n ≤ 128} (s : SockAddrStorage)
    (x : α) {bytes : List Byte} (hbytes : ofFn (layout x) <+: bytes) :
    (s.place bytes).read layout h = x := by
  obtain ⟨rest, rfl⟩ := hbytes
  rw [read, Equiv.symm_apply_eq]
  funext i
  simp [place, getElem?_append_left]

end SockAddrStorage

def decodeSockaddrStorage (target : Target) (storage : SockAddrStorage) : Option SocketAddr :=
  let family := (storage.read (Header.layout e target) (by decide)).family
  if family = afInet then
    let sin : SockAddrIn target := storage.read (SockAddrIn.layout e) (by decide)
    some (.v4 (beBytes (fromBe e sin.sinAddr)) (fromBe e sin.sinPort))
  else if family = afInet6 target then
    let sin6 : SockAddrIn6 target := storage.read (SockAddrIn6.layout e) (by decide)
    some (.v6 sin6.sin6Addr (fromBe e sin6.sin6Port) sin6.sin6Flowinfo sin6.sin6ScopeId)
  else none

theorem port_bytes (port : Word 2) :
    (ofFn (neBytes e (toBe e port))).map Fin.val = [port.val / 256, port.val % 256] := by
  have hlt := port.isLt
  rw [neBytes_toBe]
  simp [ofFn_succ, beBytes_val]
  omega

/-- On every target and host the address is read back from the bytes at the start of any storage.
In them the port and the address stand in network order. -/
theorem sockaddr_round_trip (target : Target) (e : Endian) (addr : SocketAddr)
    (storage : SockAddrStorage) :
    decodeSockaddrStorage e target
      (storage.place ((BindSockAddr.new e target addr).asPtrLen e)) = some addr ∧
    ((((BindSockAddr.new e target addr).asPtrLen e).drop 2).take 2).map Fin.val =
      [addr.port.val / 256, addr.port.val % 256] ∧
    match addr with
    | .v4 ip _ => (((BindSockAddr.new e target addr).asPtrLen e).drop 4).take 4 = ofFn ip
    | .v6 ip _ _ _ => (((BindSockAddr.new e target addr).asPtrLen e).drop 8).take 16 = ofFn ip := by
  cases addr with
  | v4 ip port =>
    rw [BindSockAddr.new, BindSockAddr.asPtrLen, decodeSockaddrStorage,
      storage.read_place _ (SockAddrIn.prefix_layout e _), storage.read_place _ (prefix_refl _),
      Header.family_new _ _ (by decide)]
    refine ⟨?_, port_bytes e port, ?_⟩
    · simp [beBytes_fromBe, fromBe_toBe]
    · exact congrArg ofFn ((neBytes e).apply_symm_apply ip)
  | v6 ip port flowinfo scopeId =>
    have hne : afInet6 target ≠ afInet := by cases target <;> decide
    have hlt : afInet6 target < 256 := by cases target <;> decide
    rw [BindSockAddr.new, BindSockAddr.asPtrLen, decodeSockaddrStorage,
      storage.read_place _ (SockAddrIn6.prefix_layout e _), storage.read_place _ (prefix_refl _),
      Header.family_new _ _ hlt]
    refine ⟨?_, port_bytes e port, rfl⟩
    simp [hne, fromBe_toBe]

end Sitas.Executor.Udp
