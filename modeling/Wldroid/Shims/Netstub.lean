import Wldroid.Foundation.CTypes
import Wldroid.Foundation.Scanning

/-!
# IPv6 addresses without NETLINK

`collect_ipv6` reads `/proc/net/if_inet6`, a line for each address, and prepends an entry for each
to the list that `getifaddrs` returns.

* `parseHex`, `makeIpv6Mask`, `parseLine`, `collectIpv6` — the code;
* `Printed` — a line that shows an entry of the kernel, and `printed_kernelLine`, that its format
  does;
* `NoEntry` — a line whose address is bad, or that ends before its name;
* `parseLine_printed`, `parseLine_noEntry` — what becomes of a line of either kind;
* `FlagsRunOn` — the last field of such a line is a number with something behind it;
* **`collectIpv6_file_iff`** — a file of such lines yields exactly the entries shown, the last
  first, if and only if the last fields of the other lines do not run on.
-/

namespace Wldroid.Shims

open Wldroid.Foundation

/-! ### Scanning a line -/

/-- `*p`, in a buffer that ends with a NUL. -/
def deref (p : List UInt8) : UInt8 := p.headD 0

/-- `' '` and `'\t'`. -/
def isBlank (c : UInt8) : Bool := c == 0x20 || c == 0x09

/-- The loop of `parse_hex`: the value so far, whether there was a digit, and where it stops. -/
def parseHexLoop (val : UInt64) (found : Bool) : List UInt8 → UInt64 × Bool × List UInt8
  | [] => (val, found, [])
  | c :: p =>
    match hexDigit c with
    | some d => parseHexLoop (val * 16 + UInt64.ofNat d) true p
    | none => (val, found, c :: p)

/-- `parse_hex`: the value, and `*endp`. -/
def parseHex (s : List UInt8) : UInt64 × List UInt8 :=
  let r := parseHexLoop 0 false (s.dropWhile isBlank)
  (r.1, if r.2.1 then r.2.2 else s)

/-- Fields 2 to 5: a hexadecimal number after a blank. -/
def field (p : List UInt8) : Option (UInt64 × List UInt8) :=
  if !isBlank (deref p) then none
  else
    let r := parseHex p
    if r.2 = p then none else some r

/-- `IFNAMSIZ`. -/
def ifNamSiz : ℕ := 16

/-- The characters that field 6 takes. -/
def isNameChar (c : UInt8) : Bool := c != 0 && c != 0x0a && !isBlank c

/-- What the loop body of `collect_ipv6` reads from a line. -/
structure ParsedLine where
  hexAddr : List UInt8
  idx : UInt64
  prefixLen : UInt64
  scope : UInt64
  flags : UInt64
  ifname : List UInt8
  deriving DecidableEq, Repr

/-- The line as the loop body of `collect_ipv6` reads it; `none` where it goes on to the next. -/
def parseLine (line : List UInt8) : Option ParsedLine :=
  let p := line.dropWhile isBlank
  let hexAddr := (p.take 32).takeWhile isHexDigit
  if hexAddr.length ≠ 32 then none
  else do
    let (idx, p) ← field (p.drop hexAddr.length)
    let (prefixLen, p) ← field p
    let (scope, p) ← field p
    let (flags, p) ← field p
    let ifname := ((p.dropWhile isBlank).take (ifNamSiz - 1)).takeWhile isNameChar
    if ifname.length = 0 then none else some ⟨hexAddr, idx, prefixLen, scope, flags, ifname⟩

/-! ### Entries -/

/-- `AF_INET6`. -/
def afInet6 : ℕ := 10

/-- `struct sockaddr_in6`. -/
structure SockaddrIn6 where
  family : ℕ
  scopeId : UInt32
  addr : List UInt8
  deriving DecidableEq, Repr

/-- `struct ifaddrs`. -/
structure Ifaddrs where
  name : List UInt8
  flags : UInt32
  addr : SockaddrIn6
  netmask : SockaddrIn6
  broadaddr : Option SockaddrIn6
  deriving DecidableEq, Repr

/-- `make_ipv6_mask`.  The loop that fills bytes stops at `i`. -/
def makeIpv6Mask (prefixLen : ℤ) : SockaddrIn6 :=
  let fullBytes := prefixLen.tdiv 8
  let remaining := prefixLen.tmod 8
  let i := (min fullBytes 16).toNat
  { family := afInet6
    scopeId := 0
    addr := (List.range 16).map fun j =>
      if j < i then 0xFF
      else if j = i ∧ remaining ≠ 0 then UInt8.ofNat (0xFF <<< (8 - remaining).toNat)
      else 0 }

/-- `alloc_entry` copies what the buffer for the name holds. -/
def entryName (ifname : List UInt8) : List UInt8 := (ifname.takeWhile (· != 0)).take (ifNamSiz - 1)

/-- The byte that two digits of the address write. -/
def hexByte (hexAddr : List UInt8) (i : ℕ) : UInt8 :=
  (parseHex [hexAddr.getD (i * 2) 0, hexAddr.getD (i * 2 + 1) 0]).1.toUInt8

/-- The entry made of a line.  The interface flags come from an `ioctl`, which may fail. -/
def makeEntry (getIfFlags : List UInt8 → Option UInt32) (r : ParsedLine) : Ifaddrs where
  name := entryName r.ifname
  flags := (getIfFlags r.ifname).getD 0
  addr :=
    { family := afInet6
      scopeId := if r.scope = 0x20 then r.idx.toUInt32 else 0
      addr := (List.range 16).map (hexByte r.hexAddr) }
  netmask := makeIpv6Mask (intOfSize r.prefixLen).toInt
  broadaddr := none

/-- The loop body of `collect_ipv6`. -/
def collectLine (getIfFlags : List UInt8 → Option UInt32) (head : List Ifaddrs)
    (line : List UInt8) : List Ifaddrs :=
  match parseLine line with
  | none => head
  | some r => makeEntry getIfFlags r :: head

/-- `collect_ipv6`, for the file if it can be opened; `fgets` reads it into 256 bytes. -/
def collectIpv6 (getIfFlags : List UInt8 → Option UInt32) (file : Option (List UInt8))
    (head : List Ifaddrs) : List Ifaddrs :=
  match file with
  | none => head
  | some bytes => (fgetsLines 0x0a 254 bytes).foldl (collectLine getIfFlags) head

/-! ### What the kernel shows -/

/-- An address of an interface. -/
structure If6Entry where
  addr : List UInt8
  addr_length : addr.length = 16
  index : UInt32
  prefixLen : Fin 129
  scope : UInt32
  flags : UInt32
  name : List UInt8
  name_length : 1 ≤ name.length ∧ name.length ≤ 15
  name_chars : ∀ c ∈ name, isNameChar c = true

/-- Digits that write the bytes of an address. -/
inductive HexBytes : List UInt8 → List UInt8 → Prop where
  | nil : HexBytes [] []
  | cons {high low byte : UInt8} {digits bytes : List UInt8} (hhigh : isHexDigit high = true)
      (hlow : isHexDigit low = true) (hbyte : hexValue [high, low] = byte.toNat)
      (rest : HexBytes digits bytes) : HexBytes (high :: low :: digits) (byte :: bytes)

/-- One or more blanks. -/
def Blanks (s : List UInt8) : Prop := s ≠ [] ∧ ∀ c ∈ s, isBlank c = true

/-- Digits that write a number. -/
def HexNumber (digits : List UInt8) (n : ℕ) : Prop :=
  digits ≠ [] ∧ (∀ c ∈ digits, isHexDigit c = true) ∧ hexValue digits = n

/-- A line that shows the entry: 32 digits, four numbers and a name, with blanks between them. -/
inductive Printed (e : If6Entry) : List UInt8 → Prop where
  | intro {address idx prefixLen scope flags b₁ b₂ b₃ b₄ pad trail : List UInt8}
      (haddress : HexBytes address e.addr)
      (h₁ : Blanks b₁) (hidx : HexNumber idx e.index.toNat)
      (h₂ : Blanks b₂) (hlen : HexNumber prefixLen e.prefixLen)
      (h₃ : Blanks b₃) (hscope : HexNumber scope e.scope.toNat)
      (h₄ : Blanks b₄) (hflags : HexNumber flags e.flags.toNat)
      (hpad : Blanks pad) (htrail : ∀ c ∈ trail, isBlank c = true) :
      Printed e (address ++ (b₁ ++ (idx ++ (b₂ ++ (prefixLen ++ (b₃ ++ (scope ++ (b₄ ++ (flags ++
        (pad ++ (e.name ++ trail)))))))))))

/-- At most so many fields, each after blanks. -/
inductive FewFields : ℕ → List UInt8 → Prop where
  | done {n : ℕ} {blanks : List UInt8} (h : ∀ c ∈ blanks, isBlank c = true) : FewFields n blanks
  | more {n : ℕ} {blanks text rest : List UInt8} (hblanks : Blanks blanks) (htext : text ≠ [])
      (hnone : ∀ c ∈ text, isBlank c = false) (hrest : ∀ c ∈ rest.head?, isBlank c = true)
      (few : FewFields n rest) : FewFields (n + 1) (blanks ++ (text ++ rest))

/-- The line starts with an address: 32 digits followed by a blank.  What comes after them is
`rest`. -/
def HasAddress (line rest : List UInt8) : Prop :=
  ∃ digits, line.dropWhile isBlank = digits ++ rest ∧ digits.length = 32 ∧
    (∀ c ∈ digits, isHexDigit c = true) ∧ ∃ c ∈ rest.head?, isBlank c = true

/-- A line without an address, or one that ends before the name. -/
def NoEntry (line : List UInt8) : Prop :=
  ∀ rest, HasAddress line rest → FewFields 4 rest

/-- So many numbers, each after blanks, the last of which runs on into other characters. -/
inductive RunsOn : ℕ → List UInt8 → Prop where
  | last {blanks digits more : List UInt8} {c : UInt8} (hblanks : Blanks blanks) (hne : digits ≠ [])
      (hdigits : ∀ c ∈ digits, isHexDigit c = true) (hc : isNameChar c = true)
      (hhex : isHexDigit c = false) : RunsOn 1 (blanks ++ (digits ++ c :: more))
  | more {n : ℕ} {blanks digits rest : List UInt8} (hblanks : Blanks blanks) (hne : digits ≠ [])
      (hdigits : ∀ c ∈ digits, isHexDigit c = true) (h : RunsOn n rest) :
      RunsOn (n + 1) (blanks ++ (digits ++ rest))

/-- The flags of a line, where it should have ended, run on. -/
def FlagsRunOn (line : List UInt8) : Prop := ∃ rest, HasAddress line rest ∧ RunsOn 4 rest

/-! ### Fields -/

theorem isHexDigit_of_isBlank {c : UInt8} (h : isBlank c = true) : isHexDigit c = false := by
  rcases (Bool.or_eq_true _ _).mp h with h | h
  · rw [eq_of_beq h]
    rfl
  · rw [eq_of_beq h]
    rfl

theorem isBlank_of_isHexDigit {c : UInt8} (h : isHexDigit c = true) : isBlank c = false := by
  by_contra hblank
  rw [isHexDigit_of_isBlank (Bool.not_eq_false _ ▸ hblank)] at h
  cases h

theorem parseHexLoop_run {digits rest : List UInt8} (hdigits : ∀ c ∈ digits, isHexDigit c = true)
    (hrest : StopsAt isHexDigit rest) (val : ℕ) (found : Bool) :
    parseHexLoop (UInt64.ofNat val) found (digits ++ rest) =
      (UInt64.ofNat (digits.foldl (fun v c => v * 16 + (hexDigit c).getD 0) val),
        found || !digits.isEmpty, rest) := by
  induction digits generalizing val found with
  | nil =>
    rw [List.nil_append, List.isEmpty_nil, Bool.not_true, Bool.or_false, List.foldl_nil]
    cases rest with
    | nil => rfl
    | cons c rest =>
      have hnone : hexDigit c = none :=
        Option.not_isSome_iff_eq_none.mp (Bool.eq_false_iff.mp (hrest c rfl))
      simp only [parseHexLoop, hnone]
  | cons c digits ih =>
    obtain ⟨hc, hdigits⟩ := List.forall_mem_cons.mp hdigits
    obtain ⟨d, hd⟩ := Option.isSome_iff_exists.mp hc
    have hval : UInt64.ofNat val * 16 + UInt64.ofNat d = UInt64.ofNat (val * 16 + d) := by
      rw [UInt64.ofNat_add, UInt64.ofNat_mul]
      rfl
    simp only [List.cons_append, parseHexLoop, hd, hval, ih hdigits, List.foldl_cons,
      Option.getD_some, List.isEmpty_cons, Bool.not_false, Bool.or_true, Bool.true_or]

theorem parseHex_run {blanks digits rest : List UInt8} (hblanks : ∀ c ∈ blanks, isBlank c = true)
    (hdigits : ∀ c ∈ digits, isHexDigit c = true) (hne : digits ≠ [])
    (hrest : StopsAt isHexDigit rest) :
    parseHex (blanks ++ (digits ++ rest)) = (UInt64.ofNat (hexValue digits), rest) := by
  have hstop : StopsAt isBlank (digits ++ rest) := by
    cases digits with
    | nil => exact absurd rfl hne
    | cons c digits => exact stopsAt_cons (isBlank_of_isHexDigit (hdigits c (.head _))) _
  have hloop := parseHexLoop_run hdigits hrest 0 false
  simp only [parseHex, dropWhile_run hblanks hstop]
  rw [show (0 : UInt64) = UInt64.ofNat 0 from rfl, hloop, Bool.false_or,
    List.isEmpty_eq_false_iff.mpr hne]
  rfl

theorem parseHex_none {s : List UInt8} (h : StopsAt isHexDigit (s.dropWhile isBlank)) :
    parseHex s = (0, s) := by
  have hloop := parseHexLoop_run (List.forall_mem_nil _) h 0 false
  simp only [parseHex]
  rw [show (0 : UInt64) = UInt64.ofNat 0 from rfl, ← List.nil_append (s.dropWhile isBlank), hloop]
  rfl

theorem deref_blanks {blanks : List UInt8} (h : Blanks blanks) (rest : List UInt8) :
    isBlank (deref (blanks ++ rest)) = true := by
  obtain ⟨hne, hall⟩ := h
  cases blanks with
  | nil => exact absurd rfl hne
  | cons c blanks => exact hall c (.head _)

theorem field_run {blanks digits rest : List UInt8} (hblanks : Blanks blanks)
    (hdigits : ∀ c ∈ digits, isHexDigit c = true) (hne : digits ≠ [])
    (hrest : StopsAt isHexDigit rest) :
    field (blanks ++ (digits ++ rest)) = some (UInt64.ofNat (hexValue digits), rest) := by
  have hmoved : rest ≠ blanks ++ (digits ++ rest) := by
    intro h
    have hlength := congrArg List.length h
    have hpos := List.length_pos_iff.mpr hne
    simp only [List.length_append] at hlength
    omega
  simp only [field, deref_blanks hblanks, parseHex_run hblanks.2 hdigits hne hrest, Bool.not_true,
    Bool.false_eq_true, if_false, if_neg hmoved]

theorem field_none {p : List UInt8} (h : StopsAt isHexDigit (p.dropWhile isBlank)) :
    field p = none := by
  simp only [field, parseHex_none h, if_true]
  exact ite_self _

theorem field_notBlank {c : UInt8} (h : isBlank c = false) (p : List UInt8) :
    field (c :: p) = none := by
  rw [field, deref, List.headD_cons, h]
  rfl

/-- What `fgets` leaves after a line: its newline, or nothing at the end of the file. -/
def LineEnd (tail : List UInt8) : Prop := tail = [] ∨ tail = [0x0a]

theorem LineEnd.stopsAt {tail : List UInt8} (h : LineEnd tail) {p : UInt8 → Bool}
    (hp : p 0x0a = false) : StopsAt p tail := by
  rcases h with rfl | rfl
  · exact stopsAt_nil p
  · exact stopsAt_cons hp []

/-! ### Lines without an entry -/

/-- Where `p` stands after so many fields. -/
def afterFields : ℕ → List UInt8 → Option (List UInt8)
  | 0, p => some p
  | n + 1, p => (field p).bind fun r => afterFields n r.2

/-- Field 6 as it is read from `p`. -/
def nameAt (p : List UInt8) : List UInt8 :=
  ((p.dropWhile isBlank).take (ifNamSiz - 1)).takeWhile isNameChar

theorem isBlank_of_isNameChar {c : UInt8} (h : isNameChar c = true) : isBlank c = false := by
  simp only [isNameChar, Bool.and_eq_true, Bool.not_eq_true'] at h
  exact h.2

/-- What is not blank is the first character of the name, or ends it. -/
theorem nameAt_cons {c : UInt8} (hc : isBlank c = false) (p : List UInt8) :
    nameAt (c :: p) ≠ [] ↔ isNameChar c = true := by
  rw [nameAt, List.dropWhile_cons_of_neg (by simp [hc])]
  show ((c :: p.take 14).takeWhile isNameChar) ≠ [] ↔ _
  by_cases hname : isNameChar c = true
  · simp [hname]
  · simp [hname]

/-- By induction on the fields: a field that is no number ends the line's parse, and one that begins
with a number but goes on is not followed by a blank, so that it has to be the last. -/
theorem fewFields_nameAt {n : ℕ} {p tail q : List UInt8} (few : FewFields n p)
    (htail : LineEnd tail) (h : afterFields n (p ++ tail) = some q) :
    nameAt q = [] ∨ RunsOn n p := by
  induction few with
  | @done n blanks hblanks =>
    left
    have hdrop : (blanks ++ tail).dropWhile isBlank = tail :=
      dropWhile_run hblanks (htail.stopsAt rfl)
    cases n with
    | zero =>
      obtain rfl := Option.some.inj h
      rw [nameAt, hdrop]
      rcases htail with rfl | rfl <;> rfl
    | succ n =>
      rw [afterFields, field_none (by rw [hdrop]; exact htail.stopsAt rfl)] at h
      cases h
  | @more n blanks text rest hblanks htext hnone hrest few ih =>
    have hstop : ∀ more, StopsAt isBlank (text ++ more) := by
      intro more
      cases text with
      | nil => exact absurd rfl htext
      | cons c text => exact stopsAt_cons (hnone c (.head _)) _
    have hafter : StopsAt isHexDigit (rest ++ tail) := by
      cases rest with
      | nil => exact htail.stopsAt rfl
      | cons c rest => exact stopsAt_cons (isHexDigit_of_isBlank (hrest c rfl)) _
    rw [List.append_assoc, List.append_assoc] at h
    have hsplit := List.takeWhile_append_dropWhile (p := isHexDigit) (l := text)
    have hdigits : ∀ c ∈ text.takeWhile isHexDigit, isHexDigit c = true := fun c hc =>
      List.mem_takeWhile_imp hc
    have hleft : StopsAt isHexDigit (text.dropWhile isHexDigit ++ (rest ++ tail)) := by
      have hd := stopsAt_dropWhile isHexDigit text
      cases hrun : text.dropWhile isHexDigit with
      | nil => exact hafter
      | cons c more => exact stopsAt_cons (hd c (by rw [hrun]; rfl)) _
    by_cases hnumber : text.takeWhile isHexDigit = []
    · -- no number: the field does not parse
      rw [hnumber, List.nil_append] at hsplit
      rw [hsplit] at hleft
      rw [afterFields, field_none (by rw [dropWhile_run hblanks.2 (hstop _)]; exact hleft)] at h
      cases h
    · have hfield : field (blanks ++ (text ++ (rest ++ tail))) =
          some (UInt64.ofNat (hexValue (text.takeWhile isHexDigit)),
            text.dropWhile isHexDigit ++ (rest ++ tail)) := by
        rw [← field_run hblanks hdigits hnumber hleft, ← List.append_assoc (text.takeWhile _),
          hsplit]
      rw [afterFields, hfield, Option.bind_some] at h
      cases hmore : text.dropWhile isHexDigit with
      | nil =>
        rw [hmore, List.append_nil] at hsplit
        rw [hmore] at h
        refine (ih h).imp_right fun hruns => ?_
        exact .more hblanks htext (hsplit ▸ hdigits) hruns
      | cons c more =>
        -- a number that goes on: the next field does not follow a blank
        have hc : isBlank c = false :=
          hnone c (hsplit ▸ List.mem_append_right _ (hmore ▸ .head _))
        rw [hmore, List.cons_append] at h
        cases n with
        | zero =>
          obtain rfl := Option.some.inj h
          refine Classical.or_iff_not_imp_left.mpr fun hname => ?_
          have hhex : isHexDigit c = false := by
            have hd := stopsAt_dropWhile isHexDigit text
            exact hd c (by rw [hmore]; rfl)
          rw [← hsplit, hmore, List.append_assoc, List.cons_append]
          exact .last hblanks hnumber hdigits ((nameAt_cons hc _).mp hname) hhex
        | succ n =>
          rw [afterFields, field_notBlank hc] at h
          cases h

theorem Blanks.stopsAt {blanks : List UInt8} (h : Blanks blanks) (rest : List UInt8) :
    StopsAt isHexDigit (blanks ++ rest) := by
  obtain ⟨hne, hall⟩ := h
  cases blanks with
  | nil => exact absurd rfl hne
  | cons c blanks => exact stopsAt_cons (isHexDigit_of_isBlank (hall c (.head _))) _

/-- What a number runs on into is read as the name. -/
theorem RunsOn.nameAt {n : ℕ} {p : List UInt8} (h : RunsOn n p) (tail : List UInt8) :
    ∃ q, afterFields n (p ++ tail) = some q ∧ nameAt q ≠ [] := by
  induction h with
  | @last blanks digits more c hblanks hne hdigits hc hhex =>
    refine ⟨c :: (more ++ tail), ?_, (nameAt_cons (isBlank_of_isNameChar hc) _).mpr hc⟩
    rw [List.append_assoc, List.append_assoc, List.cons_append, afterFields,
      field_run hblanks hdigits hne (stopsAt_cons hhex _)]
    rfl
  | @more n blanks digits rest hblanks hne hdigits h ih =>
    obtain ⟨q, hq, hname⟩ := ih
    refine ⟨q, ?_, hname⟩
    have hstop : StopsAt isHexDigit (rest ++ tail) := by
      cases h with
      | last hblanks _ _ _ _ =>
        rw [List.append_assoc]
        exact hblanks.stopsAt _
      | more hblanks _ _ _ =>
        rw [List.append_assoc]
        exact hblanks.stopsAt _
    rw [List.append_assoc, List.append_assoc, afterFields, field_run hblanks hdigits hne hstop]
    exact hq

/-- What a parsed line has: an address of 32 digits, four fields, and a name. -/
theorem parseLine_isSome_iff {line : List UInt8} : (parseLine line).isSome = true ↔
    (((line.dropWhile isBlank).take 32).takeWhile isHexDigit).length = 32 ∧
      ∃ q, afterFields 4 ((line.dropWhile isBlank).drop 32) = some q ∧ nameAt q ≠ [] := by
  simp only [parseLine]
  split
  · rename_i hlength
    exact iff_of_false Bool.false_ne_true fun h => hlength h.1
  · rename_i hlength
    have hlength := not_not.mp hlength
    rw [hlength]
    refine Iff.trans ?_ (and_iff_right rfl).symm
    simp only [afterFields]
    cases field ((line.dropWhile isBlank).drop 32) with
    | none => simp
    | some first =>
      cases hsecond : field first.2 with
      | none => simp [hsecond]
      | some second =>
        cases hthird : field second.2 with
        | none => simp [hsecond, hthird]
        | some third =>
          cases hfourth : field third.2 with
          | none => simp [hsecond, hthird, hfourth]
          | some fourth =>
            simp only [Option.bind_eq_bind, Option.bind_some, hsecond, hthird, hfourth]
            split
            · rename_i hname
              refine iff_of_false Bool.false_ne_true ?_
              rintro ⟨q, hq, hne⟩
              obtain rfl := Option.some.inj hq
              exact hne (List.length_eq_zero_iff.mp hname)
            · rename_i hname
              exact iff_of_true rfl ⟨_, rfl, fun hnil => hname (congrArg List.length hnil)⟩

/-- The blanks in front of a line, with what follows it. -/
theorem dropWhile_lineEnd {tail : List UInt8} (htail : LineEnd tail) (line : List UInt8) :
    (line ++ tail).dropWhile isBlank = line.dropWhile isBlank ++ tail := by
  rw [List.dropWhile_append]
  split
  · rename_i hempty
    rw [List.isEmpty_iff.mp hempty, List.nil_append]
    exact dropWhile_eq_self_of_stopsAt (htail.stopsAt rfl)
  · rfl

/-- A line whose flags run on is parsed. -/
theorem FlagsRunOn.parseLine {line tail : List UInt8} (h : FlagsRunOn line) (htail : LineEnd tail) :
    (parseLine (line ++ tail)).isSome = true := by
  obtain ⟨rest, ⟨digits, hline, hlength, hdigits, -⟩, hruns⟩ := h
  rw [parseLine_isSome_iff, dropWhile_lineEnd htail, hline, List.append_assoc]
  refine ⟨?_, ?_⟩
  · rw [← hlength, List.take_left, List.takeWhile_eq_self_iff.mpr hdigits]
  · rw [List.drop_left' hlength]
    exact hruns.nameAt tail

/-- **A line without an entry is skipped**, if its flags do not run on. -/
theorem parseLine_noEntry {line tail : List UInt8} (h : NoEntry line) (htail : LineEnd tail)
    (hruns : ¬ FlagsRunOn line) : parseLine (line ++ tail) = none := by
  refine Option.not_isSome_iff_eq_none.mp fun hparse => ?_
  obtain ⟨hlength, q, hfields, hname⟩ := parseLine_isSome_iff.mp hparse
  rw [dropWhile_lineEnd htail] at hlength hfields
  generalize hL : line.dropWhile isBlank = L at hlength hfields
  have hall : ∀ c ∈ (L ++ tail).take 32, isHexDigit c = true := by
    have hwhole : ((L ++ tail).take 32).takeWhile isHexDigit = (L ++ tail).take 32 :=
      (List.takeWhile_prefix _).eq_of_length_le (by
        rw [hlength]
        exact List.length_take_le _ _)
    intro c hc
    rw [← hwhole] at hc
    exact List.mem_takeWhile_imp hc
  -- the digits are on the line itself, since a newline is none
  have hlong : 32 ≤ L.length := by
    have hboth : 32 ≤ (L ++ tail).length := by
      rw [← hlength]
      exact (List.takeWhile_prefix _).length_le.trans (List.length_take_le' _ _)
    by_contra hshort
    rcases htail with rfl | rfl
    · rw [List.append_nil] at hboth
      omega
    · have hlast : (0x0a : UInt8) ∈ (L ++ [0x0a]).take 32 := by
        rw [List.take_of_length_le (by
          rw [List.length_append, List.length_singleton]
          omega)]
        exact List.mem_append_right _ (.head _)
      exact absurd (hall _ hlast) (by decide)
  have haddress : HasAddress line (L.drop 32) := by
    refine ⟨L.take 32, ?_, ?_, ?_, ?_⟩
    · rw [hL, List.take_append_drop]
    · rw [List.length_take, min_eq_left hlong]
    · intro c hc
      refine hall c ?_
      rw [List.take_append_of_le_length hlong]
      exact hc
    · rw [List.drop_append_of_le_length hlong] at hfields
      cases hrest : L.drop 32 with
      | nil =>
        rw [hrest, List.nil_append] at hfields
        rcases htail with rfl | rfl <;> cases hfields
      | cons c rest =>
        refine ⟨c, rfl, ?_⟩
        by_contra hc
        rw [hrest, afterFields, List.cons_append, field_notBlank (by simpa using hc)] at hfields
        cases hfields
  rw [List.drop_append_of_le_length hlong] at hfields
  rcases fewFields_nameAt (h _ haddress) htail hfields with hnone | hon
  · exact hname hnone
  · exact hruns ⟨_, haddress, hon⟩

/-! ### Lines with an entry -/

theorem HexBytes.isHexDigit {digits bytes : List UInt8} (h : HexBytes digits bytes) :
    ∀ c ∈ digits, isHexDigit c = true := by
  induction h with
  | nil => exact fun _ hc => absurd hc List.not_mem_nil
  | cons hhigh hlow hbyte rest ih =>
    exact List.forall_mem_cons.mpr ⟨hhigh, List.forall_mem_cons.mpr ⟨hlow, ih⟩⟩

theorem HexBytes.length {digits bytes : List UInt8} (h : HexBytes digits bytes) :
    digits.length = 2 * bytes.length := by
  induction h with
  | nil => rfl
  | cons hhigh hlow hbyte rest ih =>
    simp only [List.length_cons, ih]
    omega

/-- The bytes of an address are read back from its digits, two at a time. -/
theorem HexBytes.map_hexByte {digits bytes : List UInt8} (h : HexBytes digits bytes) :
    (List.range bytes.length).map (hexByte digits) = bytes := by
  induction h with
  | nil => rfl
  | @cons high low byte digits bytes hhigh hlow hbyte rest ih =>
    have hdigits : ∀ c ∈ [high, low], Foundation.isHexDigit c = true :=
      List.forall_mem_cons.mpr ⟨hhigh, List.forall_mem_singleton.mpr hlow⟩
    have hfirst : hexByte (high :: low :: digits) 0 = byte := by
      have hparse := parseHex_run (List.forall_mem_nil _) hdigits
        (List.cons_ne_nil _ _) (stopsAt_nil _)
      rw [List.nil_append, List.append_nil, hbyte] at hparse
      show (parseHex [high, low]).1.toUInt8 = byte
      rw [hparse, ← UInt8.toNat_inj, UInt64.toNat_toUInt8,
        UInt64.toNat_ofNat_of_lt' (byte.toNat_lt.trans (by decide))]
      exact Nat.mod_eq_of_lt byte.toNat_lt
    have hlater : hexByte (high :: low :: digits) ∘ Nat.succ = hexByte digits := by
      funext i
      simp only [hexByte, Function.comp_apply, Nat.succ_mul, List.getD_cons_succ,
        Nat.succ_eq_add_one, Nat.add_assoc]
    rw [List.length_cons, List.range_succ_eq_map, List.map_cons, List.map_map, hfirst, hlater, ih]

theorem take_name {name rest : List UInt8} (hlength : name.length ≤ ifNamSiz - 1)
    (hchars : ∀ c ∈ name, isNameChar c = true) (hrest : StopsAt isNameChar rest) :
    ((name ++ rest).take (ifNamSiz - 1)).takeWhile isNameChar = name := by
  rw [List.take_append, List.take_of_length_le hlength]
  refine takeWhile_run hchars ?_
  cases rest with
  | nil =>
    rw [List.take_nil]
    exact stopsAt_nil _
  | cons c rest =>
    cases ifNamSiz - 1 - name.length with
    | zero => exact stopsAt_nil _
    | succ n => exact stopsAt_cons (hrest c rfl) _

theorem isNameChar_of_isBlank {c : UInt8} (h : isBlank c = true) : isNameChar c = false := by
  simp [isNameChar, h]

/-! ### The format of the kernel -/

/-- What a printed line is parsed to. -/
structure Parses (e : If6Entry) (r : ParsedLine) : Prop where
  address : HexBytes r.hexAddr e.addr
  idx : r.idx = UInt64.ofNat e.index.toNat
  prefixLen : r.prefixLen = UInt64.ofNat e.prefixLen
  scope : r.scope = UInt64.ofNat e.scope.toNat
  ifname : r.ifname = e.name

/-- **A printed line is parsed.** -/
theorem parseLine_printed {e : If6Entry} {line tail : List UInt8} (h : Printed e line)
    (htail : LineEnd tail) : ∃ r, parseLine (line ++ tail) = some r ∧ Parses e r := by
  obtain ⟨haddress, h₁, ⟨hidx, hidxDigits, hidxValue⟩, h₂, ⟨hlen, hprefixDigits, hprefixValue⟩,
    h₃, ⟨hscope, hscopeDigits, hscopeValue⟩, h₄, ⟨hflags, hflagsDigits, hflagsValue⟩, hpad,
    htrail⟩ := h
  rename_i address idx prefixLen scope flags b₁ b₂ b₃ b₄ pad trail
  have hlength : address.length = 32 := by rw [haddress.length, e.addr_length]
  have hne : address ≠ [] := List.length_pos_iff.mp (by omega)
  have hname : e.name ≠ [] := List.length_pos_iff.mp e.name_length.1
  have hstart : ∀ more, (address ++ more).dropWhile isBlank = address ++ more := by
    intro more
    obtain ⟨c, rest, rfl⟩ := List.exists_cons_of_ne_nil hne
    exact dropWhile_eq_self_of_stopsAt
      (stopsAt_cons (isBlank_of_isHexDigit (haddress.isHexDigit c (.head _))) _)
  have htake : ∀ more, ((address ++ more).take 32).takeWhile isHexDigit = address := by
    intro more
    rw [← hlength, List.take_left]
    exact List.takeWhile_eq_self_iff.mpr haddress.isHexDigit
  have hafterName : StopsAt isNameChar (trail ++ tail) := by
    cases trail with
    | nil => exact htail.stopsAt rfl
    | cons c trail => exact stopsAt_cons (isNameChar_of_isBlank (htrail c (.head _))) _
  have hbeforeName : StopsAt isBlank (e.name ++ (trail ++ tail)) := by
    obtain ⟨c, rest, hc⟩ := List.exists_cons_of_ne_nil hname
    rw [hc]
    exact stopsAt_cons (isBlank_of_isNameChar (e.name_chars c (hc ▸ .head _))) _
  have hnameAt := take_name e.name_length.2 e.name_chars hafterName
  refine ⟨⟨address, _, _, _, UInt64.ofNat (hexValue flags), e.name⟩, ?_,
    ⟨haddress, rfl, rfl, rfl, rfl⟩⟩
  rw [← hidxValue, ← hprefixValue, ← hscopeValue]
  simp only [parseLine, List.append_assoc, hstart, htake, hlength, ne_eq, not_true_eq_false, if_false,
    Option.bind_eq_bind]
  rw [List.drop_left' hlength, field_run h₁ hidxDigits hidx (h₂.stopsAt _)]
  simp only [Option.bind_some]
  rw [field_run h₂ hprefixDigits hlen (h₃.stopsAt _)]
  simp only [Option.bind_some]
  rw [field_run h₃ hscopeDigits hscope (h₄.stopsAt _)]
  simp only [Option.bind_some]
  rw [field_run h₄ hflagsDigits hflags (hpad.stopsAt _)]
  simp only [Option.bind_some, dropWhile_run hpad.2 hbeforeName, hnameAt]
  exact if_neg (List.length_pos_iff.mpr hname).ne'

/-! ### The entry of a line -/

/-- A bit of a mask, the highest of the first byte being the first. -/
def maskBit (mask : List UInt8) (i : ℕ) : Bool := (mask.getD (i / 8) 0).toNat.testBit (7 - i % 8)

/-- The entry has the address, the name and the prefix that were shown, and the index as scope id if
the scope is link-local. -/
structure Describes (getIfFlags : List UInt8 → Option UInt32) (e : If6Entry) (ifa : Ifaddrs) :
    Prop where
  name : ifa.name = e.name
  flags : ifa.flags = (getIfFlags e.name).getD 0
  addr : ifa.addr = ⟨afInet6, if e.scope = 0x20 then e.index else 0, e.addr⟩
  mask_family : ifa.netmask.family = afInet6
  mask_length : ifa.netmask.addr.length = 16
  mask_bit : ∀ i < 128, maskBit ifa.netmask.addr i = decide (i < e.prefixLen)
  broadaddr : ifa.broadaddr = none

/-- The bits of the byte in which the prefix ends. -/
theorem partial_byte_bit : ∀ remaining < 8, ∀ k < 8, remaining ≠ 0 →
    (UInt8.ofNat (0xFF <<< (8 - remaining))).toNat.testBit (7 - k) = decide (k < remaining) := by
  decide

/-- **The mask has exactly the leading bits of the prefix.** -/
theorem makeIpv6Mask_bit {n i : ℕ} (hn : n ≤ 128) (hi : i < 128) :
    maskBit (makeIpv6Mask n).addr i = decide (i < n) := by
  have hdiv : (n : ℤ).tdiv 8 = (n / 8 : ℕ) := (Int.ofNat_tdiv n 8).symm
  have hmod : (n : ℤ).tmod 8 = (n % 8 : ℕ) := (Int.ofNat_tmod n 8).symm
  have hmin : (min ((n / 8 : ℕ) : ℤ) 16).toNat = n / 8 := by omega
  have hshift : (8 - ((n % 8 : ℕ) : ℤ)).toNat = 8 - n % 8 := by omega
  have hbyte : (makeIpv6Mask n).addr.getD (i / 8) 0 =
      if i / 8 < n / 8 then 0xFF
      else if i / 8 = n / 8 ∧ n % 8 ≠ 0 then UInt8.ofNat (0xFF <<< (8 - n % 8)) else 0 := by
    simp only [makeIpv6Mask, hdiv, hmin, hmod, hshift]
    rw [List.getD_eq_getElem?_getD, List.getElem?_map, List.getElem?_range (by omega)]
    simp only [Option.map_some, Option.getD_some, ne_eq, Nat.cast_eq_zero]
  rw [maskBit, hbyte]
  rcases lt_trichotomy (i / 8) (n / 8) with hlt | heq | hgt
  · have hall : ∀ k < 8, (0xFF : UInt8).toNat.testBit (7 - k) = true := by decide
    rw [if_pos hlt, hall _ (Nat.mod_lt _ (by decide))]
    exact (decide_eq_true (by omega)).symm
  · rw [if_neg (by omega)]
    by_cases hzero : n % 8 = 0
    · rw [if_neg (by omega)]
      exact ((decide_eq_false (by omega)).trans (Nat.zero_testBit _).symm).symm
    · rw [if_pos ⟨heq, hzero⟩, partial_byte_bit _ (Nat.mod_lt _ (by decide)) _
        (Nat.mod_lt _ (by decide)) hzero]
      exact decide_eq_decide.mpr (by omega)
  · rw [if_neg (by omega), if_neg (by omega)]
    exact ((decide_eq_false (by omega)).trans (Nat.zero_testBit _).symm).symm

theorem makeEntry_describes (getIfFlags : List UInt8 → Option UInt32) {e : If6Entry}
    {r : ParsedLine} (h : Parses e r) : Describes getIfFlags e (makeEntry getIfFlags r) := by
  have hlen : (intOfSize r.prefixLen).toInt = ((e.prefixLen : ℕ) : ℤ) := by
    have hlt : (e.prefixLen : ℕ) < 129 := e.prefixLen.isLt
    have hnat : r.prefixLen.toNat = e.prefixLen := by
      rw [h.prefixLen]
      exact UInt64.toNat_ofNat_of_lt' (hlt.trans (by decide))
    rw [intOfSize_eq (by omega), hnat]
  have hscope : r.scope = 0x20 ↔ e.scope = 0x20 := by
    have hnat : r.scope.toNat = e.scope.toNat := by
      rw [h.scope]
      exact UInt64.toNat_ofNat_of_lt' (e.scope.toNat_lt.trans (by decide))
    rw [← UInt64.toNat_inj, ← UInt32.toNat_inj, hnat]
    rfl
  have hidx : r.idx.toUInt32 = e.index := by
    rw [← UInt32.toNat_inj, UInt64.toNat_toUInt32, h.idx,
      UInt64.toNat_ofNat_of_lt' (e.index.toNat_lt.trans (by decide))]
    exact Nat.mod_eq_of_lt e.index.toNat_lt
  constructor
  · show entryName r.ifname = e.name
    have hnul : ∀ c ∈ e.name, (c != 0) = true := by
      intro c hc
      have hchar := e.name_chars c hc
      simp only [isNameChar, Bool.and_eq_true] at hchar
      exact hchar.1.1
    rw [entryName, h.ifname, List.takeWhile_eq_self_iff.mpr hnul]
    exact List.take_of_length_le e.name_length.2
  · rw [← h.ifname]
    rfl
  · show SockaddrIn6.mk afInet6 (if r.scope = 0x20 then r.idx.toUInt32 else 0) _ = _
    rw [← e.addr_length, h.address.map_hexByte, hidx, if_congr hscope rfl rfl]
  · rfl
  · rfl
  · intro i hi
    show maskBit (makeIpv6Mask (intOfSize r.prefixLen).toInt).addr i = _
    rw [hlen]
    exact makeIpv6Mask_bit (Nat.le_of_lt_succ e.prefixLen.isLt) hi
  · rfl

/-! ### Files -/

/-- A line of the file. -/
inductive FileLine where
  | shown (e : If6Entry) (text : List UInt8) (printed : Printed e text) (short : text.length < 255)
  | other (text : List UInt8) (noEntry : NoEntry text) (newline : 0x0a ∉ text)
      (short : text.length < 255)

def FileLine.text : FileLine → List UInt8
  | .shown _ text _ _ | .other text _ _ _ => text

/-- The entry that the line shows. -/
def FileLine.entry : FileLine → Option If6Entry
  | .shown e _ _ _ => some e
  | .other .. => none

/-- A line to be skipped, whose flags run on. -/
def FileLine.RunsOn : FileLine → Prop
  | .shown .. => False
  | .other text _ _ _ => FlagsRunOn text

/-- The file, whose last line may lack its newline. -/
def fileText (lines : List FileLine) (last : Option FileLine) : List UInt8 :=
  lines.flatMap (fun line => line.text ++ [0x0a]) ++ (last.map FileLine.text).getD []

theorem Printed.newline {e : If6Entry} {line : List UInt8} (h : Printed e line) : 0x0a ∉ line := by
  obtain ⟨haddress, h₁, hidx, h₂, hlen, h₃, hscope, h₄, hflags, hpad, htrail⟩ := h
  have hblank : ∀ {s : List UInt8}, (∀ c ∈ s, isBlank c = true) → 0x0a ∉ s := fun hs hc =>
    absurd (hs _ hc) (by decide)
  have hdigit : ∀ {s : List UInt8}, (∀ c ∈ s, isHexDigit c = true) → 0x0a ∉ s := fun hs hc =>
    absurd (hs _ hc) (by decide)
  have hname : 0x0a ∉ e.name := fun hc => absurd (e.name_chars _ hc) (by decide)
  simp only [List.mem_append, not_or]
  exact ⟨hdigit haddress.isHexDigit, hblank h₁.2, hdigit hidx.2.1, hblank h₂.2, hdigit hlen.2.1,
    hblank h₃.2, hdigit hscope.2.1, hblank h₄.2, hdigit hflags.2.1, hblank hpad.2, hname,
    hblank htrail⟩

theorem FileLine.newline (line : FileLine) : 0x0a ∉ line.text := by
  cases line with
  | shown e text printed short => exact printed.newline
  | other text noEntry newline short => exact newline

theorem FileLine.short (line : FileLine) : line.text.length ≤ 254 := by
  cases line with
  | shown e text printed short => exact Nat.le_of_lt_succ short
  | other text noEntry newline short => exact Nat.le_of_lt_succ short

/-- What is prepended for some lines: the entries that they show, the last of them first, and one
more for each line whose flags run on. -/
structure Collected (getIfFlags : List UInt8 → Option UInt32) (lines : List FileLine)
    (entries : List Ifaddrs) : Prop where
  shown : (∀ line ∈ lines, ¬ line.RunsOn) →
    List.Forall₂ (Describes getIfFlags) (lines.filterMap FileLine.entry).reverse entries
  length : (lines.filterMap FileLine.entry).length ≤ entries.length
  longer : (∃ line ∈ lines, line.RunsOn) →
    (lines.filterMap FileLine.entry).length < entries.length

section Collected

variable {getIfFlags : List UInt8 → Option UInt32} {lines later : List FileLine}
  {entries newer : List Ifaddrs}

theorem Collected.nil : Collected getIfFlags [] [] :=
  ⟨fun _ => .nil, le_rfl, nofun⟩

theorem Collected.append (h : Collected getIfFlags lines entries)
    (hlater : Collected getIfFlags later newer) :
    Collected getIfFlags (lines ++ later) (newer ++ entries) := by
  obtain ⟨hshown, hlength, hlonger⟩ := h
  obtain ⟨hshown', hlength', hlonger'⟩ := hlater
  refine ⟨fun hall => ?_, ?_, ?_⟩
  · rw [List.filterMap_append, List.reverse_append]
    exact List.rel_append (hshown' fun line hline => hall line (List.mem_append_right _ hline))
      (hshown fun line hline => hall line (List.mem_append_left _ hline))
  · rw [List.filterMap_append, List.length_append, List.length_append]
    omega
  · rintro ⟨line, hline, hruns⟩
    rw [List.filterMap_append, List.length_append, List.length_append]
    rcases List.mem_append.mp hline with hline | hline
    · have hless := hlonger ⟨line, hline, hruns⟩
      omega
    · have hless := hlonger' ⟨line, hline, hruns⟩
      omega

/-- One line. -/
theorem collectLine_spec (getIfFlags : List UInt8 → Option UInt32) (head : List Ifaddrs)
    (line : FileLine) {tail : List UInt8} (htail : LineEnd tail) :
    ∃ entries, collectLine getIfFlags head (line.text ++ tail) = entries ++ head ∧
      Collected getIfFlags [line] entries := by
  cases line with
  | shown e text printed short =>
    obtain ⟨r, hparse, hr⟩ := parseLine_printed printed htail
    refine ⟨[makeEntry getIfFlags r], ?_, fun _ => ?_, le_rfl, ?_⟩
    · rw [collectLine, FileLine.text, hparse]
      rfl
    · exact .cons (makeEntry_describes getIfFlags hr) .nil
    · rintro ⟨line, hline, hruns⟩
      rw [List.mem_singleton.mp hline] at hruns
      exact hruns.elim
  | other text noEntry newline short =>
    by_cases hruns : FlagsRunOn text
    · obtain ⟨r, hparse⟩ := Option.isSome_iff_exists.mp (hruns.parseLine htail)
      refine ⟨[makeEntry getIfFlags r], ?_, fun hall => ?_, Nat.zero_le 1, fun _ => Nat.zero_lt_one⟩
      · rw [collectLine, FileLine.text, hparse]
        rfl
      · exact absurd hruns (hall _ (.head _))
    · refine ⟨[], ?_, fun _ => .nil, le_rfl, ?_⟩
      · rw [collectLine, FileLine.text, parseLine_noEntry noEntry htail hruns]
        rfl
      · rintro ⟨line, hline, hon⟩
        rw [List.mem_singleton.mp hline] at hon
        exact absurd hon hruns

theorem collectIpv6_last (getIfFlags : List UInt8 → Option UInt32) (last : Option FileLine)
    (head : List Ifaddrs) : ∃ entries, collectIpv6 getIfFlags
        (some ((last.map FileLine.text).getD [])) head = entries ++ head ∧
      Collected getIfFlags last.toList entries := by
  cases last with
  | none =>
    refine ⟨[], ?_, .nil⟩
    simp [collectIpv6, fgetsLines]
  | some line =>
    obtain ⟨entries, hentries, hall⟩ := collectLine_spec getIfFlags head line (.inl rfl)
    rw [List.append_nil] at hentries
    refine ⟨entries, ?_, hall⟩
    simp only [collectIpv6, Option.map_some, Option.getD_some]
    by_cases hempty : line.text = []
    · rw [hempty] at hentries ⊢
      rw [fgetsLines, List.foldl_nil, ← hentries]
      rfl
    · rw [fgetsLines_last line.newline line.short hempty, List.foldl_cons, List.foldl_nil, hentries]

/-- All lines. -/
theorem collectIpv6_file (getIfFlags : List UInt8 → Option UInt32) (lines : List FileLine)
    (last : Option FileLine) (head : List Ifaddrs) :
    ∃ entries, collectIpv6 getIfFlags (some (fileText lines last)) head = entries ++ head ∧
      Collected getIfFlags (lines ++ last.toList) entries := by
  induction lines generalizing head with
  | nil => exact collectIpv6_last getIfFlags last head
  | cons line lines ih =>
    obtain ⟨first, hfirst, hfirstAll⟩ := collectLine_spec getIfFlags head line (.inr rfl)
    obtain ⟨later, hlater, hlaterAll⟩ := ih (first ++ head)
    refine ⟨later ++ first, ?_, hfirstAll.append hlaterAll⟩
    have htext : fileText (line :: lines) last = line.text ++ 0x0a :: fileText lines last := by
      simp [fileText]
    rw [htext, collectIpv6, fgetsLines_line line.newline line.short, List.foldl_cons, hfirst]
    exact hlater.trans (List.append_assoc _ _ _).symm

end Collected

/-- **The file of the addresses.**  For every file made of lines that show an entry and lines that
have none, the entries prepended are those of the former, the last of them first, if and only if the
flags of the latter do not run on. -/
theorem collectIpv6_file_iff (getIfFlags : List UInt8 → Option UInt32) (lines : List FileLine)
    (last : Option FileLine) (head : List Ifaddrs) :
    (∃ entries, collectIpv6 getIfFlags (some (fileText lines last)) head = entries ++ head ∧
      List.Forall₂ (Describes getIfFlags)
        ((lines ++ last.toList).filterMap FileLine.entry).reverse entries) ↔
      ∀ line ∈ lines ++ last.toList, ¬ line.RunsOn := by
  obtain ⟨entries, hentries, hshown, -, hlonger⟩ := collectIpv6_file getIfFlags lines last head
  constructor
  · rintro ⟨entries', hentries', hall⟩ line hline hruns
    obtain rfl := List.append_cancel_right (hentries'.symm.trans hentries)
    have hless := hlonger ⟨line, hline, hruns⟩
    rw [← List.length_reverse, hall.length_eq] at hless
    exact absurd hless (Nat.lt_irrefl _)
  · exact fun hall => ⟨entries, hentries, hshown hall⟩

/-- `fe800000000000000000000000000001`. -/
def linkLocal : List UInt8 := [0x66, 0x65, 0x38] ++ List.replicate 28 0x30 ++ [0x31]

/-- ` 03 40 20 80eth0`. -/
def unnamedFields : List UInt8 :=
  [0x20] ++ ([0x30, 0x33] ++ ([0x20] ++ ([0x34, 0x30] ++ ([0x20] ++ ([0x32, 0x30] ++
    ([0x20] ++ ([0x38, 0x30] ++ [0x65, 0x74, 0x68, 0x30])))))))

/-- A line without a name. -/
def unnamedLine : List UInt8 := linkLocal ++ unnamedFields

theorem blanks_space : Blanks [0x20] :=
  ⟨List.cons_ne_nil _ _, List.forall_mem_singleton.mpr rfl⟩

theorem unnamedLine_noEntry : NoEntry unnamedLine := by
  rintro rest ⟨digits, hline, hlength, -⟩
  obtain rfl : unnamedFields = rest := by
    have hdrop := congrArg (List.drop 32) hline
    rw [List.drop_left' hlength] at hdrop
    exact hdrop
  have htext : ∀ text : List UInt8, text.all (fun c => !isBlank c) = true →
      ∀ c ∈ text, isBlank c = false := by
    intro text hall c hc
    simpa using List.all_eq_true.mp hall c hc
  have hhead : ∀ more : List UInt8, ∀ c ∈ ([0x20] ++ more : List UInt8).head?, isBlank c = true := by
    intro more c hc
    obtain rfl := Option.mem_some_iff.mp hc
    rfl
  refine .more blanks_space (List.cons_ne_nil _ _) (htext _ rfl) (hhead _) ?_
  refine .more blanks_space (List.cons_ne_nil _ _) (htext _ rfl) (hhead _) ?_
  refine .more blanks_space (List.cons_ne_nil _ _) (htext _ rfl) (hhead _) ?_
  show FewFields 1 ([0x20] ++ ([0x38, 0x30, 0x65, 0x74, 0x68, 0x30] ++ []))
  exact .more blanks_space (List.cons_ne_nil _ _) (htext _ rfl) (by simp) (.done (by simp))

theorem unnamedLine_runsOn : FlagsRunOn unnamedLine := by
  have hdigits : ∀ text : List UInt8, text.all isHexDigit = true → ∀ c ∈ text, isHexDigit c = true :=
    fun text hall => List.all_eq_true.mp hall
  refine ⟨unnamedFields, ⟨linkLocal, rfl, rfl, hdigits _ rfl, 0x20, rfl, rfl⟩, ?_⟩
  refine .more blanks_space (List.cons_ne_nil _ _) (hdigits _ rfl) ?_
  refine .more blanks_space (List.cons_ne_nil _ _) (hdigits _ rfl) ?_
  refine .more blanks_space (List.cons_ne_nil _ _) (hdigits _ rfl) ?_
  -- `e` is a digit as well
  show RunsOn 1 ([0x20] ++ ([0x38, 0x30, 0x65] ++ 0x74 :: [0x68, 0x30]))
  exact .last blanks_space (List.cons_ne_nil _ _) (hdigits _ rfl) rfl rfl

/-- It is listed as an address of `th0`. -/
theorem unnamedLine_listed :
    ¬ ∀ (getIfFlags : List UInt8 → Option UInt32) (lines : List FileLine) (last : Option FileLine)
      (head : List Ifaddrs), ∃ entries,
        collectIpv6 getIfFlags (some (fileText lines last)) head = entries ++ head ∧
          List.Forall₂ (Describes getIfFlags)
            ((lines ++ last.toList).filterMap FileLine.entry).reverse entries := by
  intro hall
  let line : FileLine := .other unnamedLine unnamedLine_noEntry (by decide) (by decide)
  obtain ⟨entries, hentries, hshown⟩ := hall (fun _ => none) [line] none []
  obtain ⟨entries', hentries', hcollected⟩ := collectIpv6_file (fun _ => none) [line] none []
  obtain rfl := List.append_cancel_right (hentries'.symm.trans hentries)
  have hless := hcollected.longer ⟨line, .head _, unnamedLine_runsOn⟩
  rw [← List.length_reverse, hshown.length_eq] at hless
  exact absurd hless (Nat.lt_irrefl _)

end Wldroid.Shims
