import AoSdl.Text

/-! `inet_pton` and `inet_ntop`: dotted IPv4 and hexadecimal IPv6 addresses, as the C library reads
and writes them. -/
namespace AoSdl
open Lib.Decimal

/-- The octets that are complete, the one being read, and how many were begun. -/
structure Ipv4Scan where
  tmp : Bytes := []
  octet : Nat := 0
  octets : Nat := 0
  saw_digit : Bool := false

def Ipv4Scan.step (s : Ipv4Scan) (ch : UInt8) : Option Ipv4Scan :=
  if isDigit ch then
    let new := s.octet * 10 + (ch.toNat - 48)
    if s.saw_digit && s.octet = 0 then none
    else if 255 < new then none
    else if s.saw_digit then some { s with octet := new }
    else if 4 < s.octets + 1 then none
    else some { s with octet := new, octets := s.octets + 1, saw_digit := true }
  else if ch = 46 && s.saw_digit then
    if s.octets = 4 then none
    else some ⟨s.tmp ++ [UInt8.ofNat s.octet], 0, s.octets, false⟩
  else none

/-- The four bytes of an IPv4 address. -/
def inet_pton4 (src : Bytes) : Option Bytes :=
  match src.foldlM Ipv4Scan.step {} with
  | none => none
  | some s => if s.octets < 4 then none else some (s.tmp ++ [UInt8.ofNat s.octet])

def hex_digit_value (ch : UInt8) : Option Nat :=
  if isDigit ch then some (ch.toNat - 48)
  else if 97 ≤ ch && ch ≤ 102 then some (ch.toNat - 87)
  else if 65 ≤ ch && ch ≤ 70 then some (ch.toNat - 55)
  else none

/-- The bytes written so far, where the `::` stood, the group being read and where it began. -/
structure Ipv6Scan where
  tmp : Bytes := []
  colonp : Option Nat := none
  curtok : Bytes
  xdigits_seen : Nat := 0
  val : Nat := 0

/-- The two bytes of a finished group. -/
def Ipv6Scan.store (s : Ipv6Scan) : Ipv6Scan :=
  { s with
    tmp := s.tmp ++ [UInt8.ofNat (s.val / 256), UInt8.ofNat (s.val % 256)]
    xdigits_seen := 0
    val := 0 }

def Ipv6Scan.run : Bytes → Ipv6Scan → Option Ipv6Scan
  | [], s => some s
  | ch :: src, s =>
    match hex_digit_value ch with
    | some digit =>
      if s.xdigits_seen = 4 then none
      else run src { s with val := s.val * 16 + digit, xdigits_seen := s.xdigits_seen + 1 }
    | none =>
      if ch = 58 then
        if s.xdigits_seen = 0 then
          if s.colonp.isSome then none
          else run src { s with curtok := src, colonp := some s.tmp.length }
        else if src.isEmpty then none
        else if 16 < s.tmp.length + 2 then none
        else run src { s.store with curtok := src }
      else if ch = 46 && s.tmp.length + 4 ≤ 16 then
        (inet_pton4 s.curtok).map fun octets => { s with tmp := s.tmp ++ octets, xdigits_seen := 0 }
      else none

/-- The last group, and the zeros that a `::` stands for. -/
def Ipv6Scan.finish (s : Ipv6Scan) : Option Bytes :=
  if 0 < s.xdigits_seen && 16 < s.tmp.length + 2 then none
  else
    let tmp := if 0 < s.xdigits_seen then s.store.tmp else s.tmp
    match s.colonp with
    | none => if tmp.length = 16 then some tmp else none
    | some colonp =>
      if tmp.length = 16 then none
      else some (tmp.take colonp ++ List.replicate (16 - tmp.length) 0 ++ tmp.drop colonp)

/-- The sixteen bytes of an IPv6 address. -/
def inet_pton6 (src : Bytes) : Option Bytes :=
  match src with
  | [] => none
  | 58 :: src => if src.head? = some 58 then (Ipv6Scan.run src { curtok := src }).bind Ipv6Scan.finish
    else none
  | src => (Ipv6Scan.run src { curtok := src }).bind Ipv6Scan.finish

/-- Four bytes in dotted decimal. -/
def inet_ntop4 (src : Bytes) : Bytes :=
  [46].intercalate (src.map fun octet => natText octet.toNat)

def hex_digit (d : Nat) : UInt8 := UInt8.ofNat (if d < 10 then 48 + d else 87 + d)

/-- `%x` of a 16-bit group. -/
def hex_text (group : Nat) : Bytes :=
  if group = 0 then [48] else (Nat.digits 16 group).reverse.map hex_digit

/-- The first longest run of zero groups: where it starts and its length, 0 for none. -/
def zero_run : Nat → List Nat → Nat × Nat
  | _, [] => (0, 0)
  | i, group :: groups =>
    let here := ((group :: groups).takeWhile (· = 0)).length
    let later := zero_run (i + 1) groups
    if later.2 ≤ here then (i, here) else later

/-- Sixteen bytes as hexadecimal groups. The first longest run of two zero groups or more is written
`::`, and an embedded IPv4 address in dotted decimal. -/
def inet_ntop6 (src : Bytes) : Bytes :=
  let groups := (List.range 8).map fun i => (src.getD (2 * i) 0).toNat * 256 + (src.getD (2 * i + 1) 0).toNat
  let text (groups : List Nat) : Bytes := [58].intercalate (groups.map hex_text)
  let (base, len) := zero_run 0 groups
  if len < 2 then text groups
  else if base = 0 && (len = 6 || (len = 5 && groups.getD 5 0 = 0xffff)) then
    bytes "::" ++ (if len = 5 then hex_text 0xffff ++ [58] else []) ++ inet_ntop4 (src.drop 12)
  else text (groups.take base) ++ bytes "::" ++ text (groups.drop (base + len))

/-- The letters that addresses are written with. -/
def addressLetter (c : UInt8) : Bool := (hex_digit_value c).isSome || c = 58 || c = 46

theorem addressLetter_of_digit {c : UInt8} (digit : isDigit c = true) : addressLetter c = true := by
  simp [addressLetter, hex_digit_value, digit]

theorem addressLetter_range {c : UInt8} (letter : addressLetter c = true) : 46 ≤ c.toNat := by
  simp only [addressLetter, hex_digit_value, isDigit, Bool.or_eq_true, decide_eq_true_eq] at letter
  rcases letter with (hex | rfl) | rfl
  · simp only [Bool.and_eq_true, decide_eq_true_eq, UInt8.le_iff_toNat_le, UInt8.reduceToNat] at hex
    split_ifs at hex <;> first | omega | cases hex
  · decide
  · decide

theorem addressLetter_solid {c : UInt8} (letter : addressLetter c = true) : isSpace c = false ∧ c ≠ 0 := by
  have range := addressLetter_range letter
  constructor
  · simp only [isSpace, Bool.or_eq_false_iff, Bool.and_eq_false_iff, decide_eq_false_iff_not,
      UInt8.le_iff_toNat_le, ← UInt8.toNat_inj, UInt8.reduceToNat]
    omega
  · rintro rfl
    simp at range

theorem ipv4_letters {src : Bytes} {s t : Ipv4Scan} (read : src.foldlM Ipv4Scan.step s = some t) :
    ∀ c ∈ src, addressLetter c = true := by
  induction src generalizing s with
  | nil => exact List.forall_mem_nil _
  | cons ch src ih =>
    rw [List.foldlM_cons, Option.bind_eq_bind, Option.bind_eq_some_iff] at read
    obtain ⟨next, step, later⟩ := read
    refine List.forall_mem_cons.mpr ⟨?_, ih later⟩
    unfold Ipv4Scan.step at step
    split at step
    · next digit => exact addressLetter_of_digit digit
    · split at step
      · next dot =>
        rw [Bool.and_eq_true, decide_eq_true_eq] at dot
        rw [dot.1]
        rfl
      · cases step

theorem inet_pton4_letters {src : Bytes} (valid : (inet_pton4 src).isSome) :
    ∀ c ∈ src, addressLetter c = true := by
  unfold inet_pton4 at valid
  split at valid
  · cases valid
  · next s read => exact ipv4_letters read

/-- What is left to read belongs to the group being read. -/
theorem ipv6_letters {src : Bytes} {s t : Ipv6Scan} (inside : src <:+ s.curtok)
    (read : Ipv6Scan.run src s = some t) : ∀ c ∈ src, addressLetter c = true := by
  induction src generalizing s with
  | nil => exact List.forall_mem_nil _
  | cons ch src ih =>
    unfold Ipv6Scan.run at read
    split at read
    · next digit hex =>
      split at read
      · cases read
      · refine List.forall_mem_cons.mpr ⟨by simp [addressLetter, hex], ih ?_ read⟩
        exact (List.suffix_cons ch src).trans inside
    · split at read
      · next colon =>
        refine List.forall_mem_cons.mpr ⟨by simp [addressLetter, colon], ?_⟩
        split at read
        · split at read
          · cases read
          · exact ih (List.suffix_refl src) read
        · split at read
          · cases read
          · split at read
            · cases read
            · exact ih (List.suffix_refl src) read
      · split at read
        · obtain ⟨octets, dotted, _⟩ := Option.map_eq_some_iff.mp read
          have valid : (inet_pton4 s.curtok).isSome := by rw [dotted]; rfl
          have letters := inet_pton4_letters valid
          exact fun c member => letters c (inside.subset member)
        · cases read

theorem inet_pton6_letters {src : Bytes} (valid : (inet_pton6 src).isSome) :
    ∀ c ∈ src, addressLetter c = true := by
  unfold inet_pton6 at valid
  split at valid
  · cases valid
  · next src =>
    split at valid
    · obtain ⟨bytes, finished⟩ := Option.isSome_iff_exists.mp valid
      obtain ⟨t, read, _⟩ := Option.bind_eq_some_iff.mp finished
      exact List.forall_mem_cons.mpr ⟨rfl, ipv6_letters (List.suffix_refl src) read⟩
    · cases valid
  · obtain ⟨bytes, finished⟩ := Option.isSome_iff_exists.mp valid
    obtain ⟨t, read, _⟩ := Option.bind_eq_some_iff.mp finished
    exact ipv6_letters (List.suffix_refl _) read

/-- How many letters an octet that was begun still takes. -/
def Ipv4Scan.room (s : Ipv4Scan) : Nat :=
  if !s.saw_digit then 3 else if s.octet = 0 then 0 else if s.octet < 10 then 2 else if s.octet < 26 then 1 else 0

/-- Octets are begun one at a time, and the one being read fits a byte. -/
structure Ipv4Scan.Counted (s : Ipv4Scan) : Prop where
  fits : s.octet ≤ 255
  begun : s.octets ≤ 4
  stored : s.octets = s.tmp.length + if s.saw_digit then 1 else 0
  fresh : s.saw_digit = false → s.octet = 0 ∧ s.octets < 4

theorem Ipv4Scan.Counted.step {s t : Ipv4Scan} {ch : UInt8} (counted : s.Counted)
    (read : s.step ch = some t) :
    t.Counted ∧ 1 + t.room + 4 * (3 - t.tmp.length) ≤ s.room + 4 * (3 - s.tmp.length) := by
  obtain ⟨tmp, octet, octets, saw_digit⟩ := s
  obtain ⟨fits, begun, stored, fresh⟩ := counted
  dsimp only at fits begun stored fresh
  unfold Ipv4Scan.step at read
  split at read
  · next digit =>
    have range := (isDigit_iff ch).mp digit
    dsimp only at read
    cases saw_digit with
    | false =>
      obtain rfl := (fresh rfl).1
      simp only [Bool.false_and, Bool.false_eq_true, if_false, Nat.zero_mul, Nat.zero_add] at read stored
      split at read
      · cases read
      · split at read
        · cases read
        · cases read
          refine ⟨⟨by dsimp only; omega, by dsimp only; omega, by simp [stored], nofun⟩, ?_⟩
          simp only [Ipv4Scan.room, Bool.not_true, Bool.not_false, Bool.false_eq_true, if_true, if_false]
          split_ifs <;> omega
    | true =>
      simp only [Bool.true_and, decide_eq_true_eq, if_true] at read stored
      split at read
      · cases read
      · split at read
        · cases read
        · cases read
          refine ⟨⟨by dsimp only; omega, begun, stored, nofun⟩, ?_⟩
          simp only [Ipv4Scan.room, Bool.not_true, Bool.false_eq_true, if_false]
          split_ifs <;> omega
  · split at read
    · next dot =>
      rw [Bool.and_eq_true] at dot
      obtain rfl : saw_digit = true := dot.2
      simp only [if_true] at stored
      split at read
      · cases read
      · next four =>
        cases read
        dsimp only at four
        refine ⟨⟨by simp, begun, by simp [stored], fun _ => ⟨rfl, by dsimp only; omega⟩⟩, ?_⟩
        simp only [Ipv4Scan.room, Bool.not_false, if_true, List.length_append, List.length_singleton]
        omega
    · cases read

theorem Ipv4Scan.Counted.run {src : Bytes} {s t : Ipv4Scan} (counted : s.Counted)
    (read : src.foldlM Ipv4Scan.step s = some t) :
    t.Counted ∧ src.length + t.room + 4 * (3 - t.tmp.length) ≤ s.room + 4 * (3 - s.tmp.length) := by
  induction src generalizing s with
  | nil =>
    cases read
    exact ⟨counted, by simp⟩
  | cons ch src ih =>
    rw [List.foldlM_cons, Option.bind_eq_bind, Option.bind_eq_some_iff] at read
    obtain ⟨next, step, later⟩ := read
    obtain ⟨kept, less⟩ := counted.step step
    obtain ⟨ended, rest⟩ := ih kept later
    refine ⟨ended, ?_⟩
    rw [List.length_cons]
    omega

theorem Ipv4Scan.counted_start : Ipv4Scan.Counted {} := ⟨by decide, by decide, rfl, fun _ => ⟨rfl, by decide⟩⟩

theorem inet_pton4_spec {src octets : Bytes} (valid : inet_pton4 src = some octets) :
    octets.length = 4 ∧ src.length ≤ 15 := by
  unfold inet_pton4 at valid
  split at valid
  · cases valid
  · next s read =>
    split at valid
    · cases valid
    · next enough =>
      cases valid
      obtain ⟨counted, less⟩ := Ipv4Scan.counted_start.run read
      have stored := counted.stored
      have fresh := counted.fresh
      have start : Ipv4Scan.room {} = 3 := rfl
      simp only [List.length_nil, Nat.sub_zero, start] at less
      refine ⟨?_, ?_⟩
      · rw [List.length_append, List.length_singleton]
        split at stored
        · have begun := counted.begun
          omega
        · next other => exact absurd (fresh (by simpa using other)).2 enough
      · omega

theorem Ipv6Scan.length_store (s : Ipv6Scan) : s.store.tmp.length = s.tmp.length + 2 := by
  simp [Ipv6Scan.store]

/-- The group that is read has at most four digits and begins where it says, and its bytes fit. -/
structure Ipv6Scan.Counted (s : Ipv6Scan) (src : Bytes) : Prop where
  digits : s.xdigits_seen ≤ 4
  stored : s.tmp.length ≤ 16
  group : s.curtok.length = s.xdigits_seen + src.length
  mark : ∀ i ∈ s.colonp, i ≤ s.tmp.length

/-- How long the rest of an address can be: five letters for each group that fits, a second colon,
and the dotted end. -/
def Ipv6Scan.room (s : Ipv6Scan) : Nat :=
  5 * ((16 - s.tmp.length) / 2) + (if s.colonp.isNone then 1 else 0) + 16

theorem Ipv6Scan.Counted.run {src : Bytes} {s t : Ipv6Scan} (counted : s.Counted src)
    (read : Ipv6Scan.run src s = some t) :
    src.length + s.xdigits_seen ≤ s.room ∧ t.tmp.length ≤ 16 ∧ ∀ i ∈ t.colonp, i ≤ t.tmp.length := by
  induction src generalizing s with
  | nil =>
    cases read
    refine ⟨?_, counted.stored, counted.mark⟩
    have digits := counted.digits
    simp only [List.length_nil, Ipv6Scan.room]
    omega
  | cons ch src ih =>
    obtain ⟨digits, stored, group, mark⟩ := counted
    rw [List.length_cons] at group ⊢
    unfold Ipv6Scan.run at read
    split at read
    · next digit hex =>
      split at read
      · cases read
      · have next := ih (s := { s with val := s.val * 16 + digit, xdigits_seen := s.xdigits_seen + 1 })
          ⟨by dsimp only; omega, stored, by dsimp only; omega, mark⟩ read
        simp only [Ipv6Scan.room] at next ⊢
        exact ⟨by omega, next.2⟩
    · split at read
      · next colon =>
        split at read
        · next fresh =>
          split at read
          · cases read
          · next first =>
            have next := ih (s := { s with curtok := src, colonp := some s.tmp.length })
              ⟨by dsimp only; omega, stored, by dsimp only; omega, by simp⟩ read
            have none : s.colonp.isNone = true := by simpa using first
            simp only [Ipv6Scan.room, Option.isNone_some, Bool.false_eq_true, if_false, none, if_true] at next ⊢
            exact ⟨by omega, next.2⟩
        · split at read
          · cases read
          · split at read
            · cases read
            · next fits =>
              have length := s.length_store
              have next := ih (s := { s.store with curtok := src })
                ⟨by simp [Ipv6Scan.store], by dsimp only; omega, by simp [Ipv6Scan.store], fun i member => by
                  have before := mark i member
                  dsimp only
                  omega⟩ read
              have same : s.store.colonp = s.colonp := rfl
              have fresh : s.store.xdigits_seen = 0 := rfl
              simp only [Ipv6Scan.room, same, fresh, length] at next ⊢
              exact ⟨by omega, next.2⟩
      · split at read
        · next dotted =>
          obtain ⟨octets, valid, rfl⟩ := Option.map_eq_some_iff.mp read
          obtain ⟨four, short⟩ := inet_pton4_spec valid
          rw [Bool.and_eq_true, decide_eq_true_eq, decide_eq_true_eq] at dotted
          refine ⟨?_, ?_, fun i member => ?_⟩
          · simp only [Ipv6Scan.room]
            omega
          · simp only [List.length_append]
            omega
          · have before := mark i member
            simp only [List.length_append]
            omega
        · cases read

theorem Ipv6Scan.length_finish {s : Ipv6Scan} {addr : Bytes} (stored : s.tmp.length ≤ 16)
    (mark : ∀ i ∈ s.colonp, i ≤ s.tmp.length) (done : s.finish = some addr) : addr.length = 16 := by
  have length := s.length_store
  unfold Ipv6Scan.finish at done
  split at done
  · cases done
  · next fits =>
    rw [Bool.and_eq_true, decide_eq_true_eq, decide_eq_true_eq] at fits
    have whole : (if 0 < s.xdigits_seen then s.store.tmp else s.tmp).length ≤ 16 ∧
        s.tmp.length ≤ (if 0 < s.xdigits_seen then s.store.tmp else s.tmp).length := by
      split <;> omega
    generalize (if 0 < s.xdigits_seen then s.store.tmp else s.tmp) = tmp at whole done
    dsimp only at done
    split at done
    · split at done
      · next all =>
        cases done
        exact all
      · cases done
    · next colonp at_ =>
      have before := mark colonp at_
      split at done
      · cases done
      · cases done
        simp only [List.length_append, List.length_take, List.length_replicate, List.length_drop]
        omega

theorem Ipv6Scan.counted_start (src : Bytes) : Ipv6Scan.Counted { curtok := src } src :=
  ⟨Nat.zero_le _, Nat.zero_le _, (Nat.zero_add _).symm, by simp⟩

theorem inet_pton6_spec {src addr : Bytes} (valid : inet_pton6 src = some addr) :
    addr.length = 16 ∧ src.length ≤ 58 := by
  have start {text : Bytes} (read : (Ipv6Scan.run text { curtok := text }).bind Ipv6Scan.finish = some addr) :
      addr.length = 16 ∧ text.length ≤ 57 := by
    obtain ⟨t, ran, done⟩ := Option.bind_eq_some_iff.mp read
    obtain ⟨short, stored, mark⟩ := (Ipv6Scan.counted_start text).run ran
    exact ⟨Ipv6Scan.length_finish stored mark done, by simpa [Ipv6Scan.room] using short⟩
  unfold inet_pton6 at valid
  split at valid
  · cases valid
  · next src =>
    split at valid
    · obtain ⟨whole, short⟩ := start valid
      exact ⟨whole, Nat.succ_le_succ short⟩
    · cases valid
  · obtain ⟨whole, short⟩ := start valid
    exact ⟨whole, by omega⟩

theorem Ipv4Scan.step_letter {s t : Ipv4Scan} {ch : UInt8} (read : s.step ch = some t) :
    isDigit ch = true ∨ ch = 46 := by
  unfold Ipv4Scan.step at read
  split at read
  · next digit => exact .inl digit
  · split at read
    · next dot =>
      rw [Bool.and_eq_true, decide_eq_true_eq] at dot
      exact .inr dot.1
    · cases read

theorem Ipv4Scan.run_letters {src : Bytes} {s t : Ipv4Scan} (read : src.foldlM Ipv4Scan.step s = some t) :
    ∀ c ∈ src, isDigit c = true ∨ c = 46 := by
  induction src generalizing s with
  | nil => exact List.forall_mem_nil _
  | cons ch src ih =>
    rw [List.foldlM_cons, Option.bind_eq_bind, Option.bind_eq_some_iff] at read
    obtain ⟨next, step, later⟩ := read
    exact List.forall_mem_cons.mpr ⟨Ipv4Scan.step_letter step, ih later⟩

theorem inet_pton4_run {src octets : Bytes} (valid : inet_pton4 src = some octets) :
    ∃ s, src.foldlM Ipv4Scan.step {} = some s ∧ 4 ≤ s.octets ∧ octets = s.tmp ++ [UInt8.ofNat s.octet] := by
  unfold inet_pton4 at valid
  split at valid
  · cases valid
  · next s read =>
    split at valid
    · cases valid
    · next enough => exact ⟨s, read, Nat.not_lt.mp enough, (Option.some.inj valid).symm⟩

theorem inet_pton4_dotted {src octets : Bytes} (valid : inet_pton4 src = some octets) :
    ∀ c ∈ src, isDigit c = true ∨ c = 46 :=
  have ⟨_, ran, _⟩ := inet_pton4_run valid
  Ipv4Scan.run_letters ran

/-- Without a colon there is one group, or a dotted end that stands alone. -/
theorem ipv6_colon {src : Bytes} {s t : Ipv6Scan} (clean : 58 ∉ src) (fresh : s.tmp = [] ∧ s.colonp = none)
    (read : Ipv6Scan.run src s = some t) : t.tmp.length ≤ 4 ∧ t.colonp = none := by
  induction src generalizing s with
  | nil =>
    cases read
    exact ⟨by simp [fresh.1], fresh.2⟩
  | cons ch src ih =>
    obtain ⟨other, clean⟩ := not_or.mp (List.mem_cons.not.mp clean)
    unfold Ipv6Scan.run at read
    split at read
    · split at read
      · cases read
      · next digit _ _ =>
        exact ih clean (s := { s with val := s.val * 16 + digit, xdigits_seen := s.xdigits_seen + 1 }) fresh read
    · rw [if_neg (Ne.symm other)] at read
      split at read
      · obtain ⟨octets, valid, rfl⟩ := Option.map_eq_some_iff.mp read
        exact ⟨by simp [fresh.1, (inet_pton4_spec valid).1], fresh.2⟩
      · cases read

theorem inet_pton6_colon {src addr : Bytes} (valid : inet_pton6 src = some addr) : 58 ∈ src := by
  by_contra none
  have start {text : Bytes} (clean : 58 ∉ text) :
      (Ipv6Scan.run text { curtok := text }).bind Ipv6Scan.finish ≠ some addr := by
    intro read
    obtain ⟨t, ran, done⟩ := Option.bind_eq_some_iff.mp read
    obtain ⟨short, unmarked⟩ := ipv6_colon clean ⟨rfl, rfl⟩ ran
    have length := t.length_store
    unfold Ipv6Scan.finish at done
    split at done
    · cases done
    · have whole : (if 0 < t.xdigits_seen then t.store.tmp else t.tmp).length ≤ 6 := by
        split <;> omega
      generalize (if 0 < t.xdigits_seen then t.store.tmp else t.tmp) = tmp at whole done
      have not_all : tmp.length ≠ 16 := by omega
      simp [unmarked, not_all] at done
  unfold inet_pton6 at valid
  split at valid
  · cases valid
  · exact none List.mem_cons_self
  · exact start none valid

theorem hex_digit_of_digit {ch : UInt8} (digit : isDigit ch = true) :
    hex_digit_value ch = some (ch.toNat - 48) := by
  rw [hex_digit_value, if_pos digit]

/-- A dotted end is found before its first octet is too long for a group. -/
theorem ipv6_dotted {src octets : Bytes} {s : Ipv6Scan} {t ended : Ipv4Scan} (counted : t.Counted)
    (first : t.tmp = []) (digits : s.xdigits_seen + t.room ≤ 3) (fits : s.tmp.length + 4 ≤ 16)
    (whole : inet_pton4 s.curtok = some octets) (ran : src.foldlM Ipv4Scan.step t = some ended)
    (four : 4 ≤ ended.octets) :
    ∃ val, Ipv6Scan.run src s = some { s with tmp := s.tmp ++ octets, xdigits_seen := 0, val := val } := by
  induction src generalizing s t with
  | nil =>
    cases ran
    have stored := counted.stored
    rw [first, List.length_nil] at stored
    split at stored <;> omega
  | cons ch src ih =>
    rw [List.foldlM_cons, Option.bind_eq_bind, Option.bind_eq_some_iff] at ran
    obtain ⟨next, step, later⟩ := ran
    obtain ⟨kept, less⟩ := counted.step step
    unfold Ipv6Scan.run
    rcases Ipv4Scan.step_letter step with digit | rfl
    · have same : next.tmp = [] := by
        unfold Ipv4Scan.step at step
        rw [if_pos digit] at step
        dsimp only at step
        split_ifs at step <;> cases step <;> exact first
      rw [first, same] at less
      simp only [hex_digit_of_digit digit]
      rw [if_neg (by omega)]
      exact ih kept same (s := { s with val := _, xdigits_seen := s.xdigits_seen + 1 }) (by dsimp only; omega) fits
        whole later
    · have no_digit : hex_digit_value 46 = none := rfl
      simp only [no_digit, whole]
      exact ⟨s.val, by simp [fits]⟩

/-- The groups in front of an IPv4 address in the spelling `::ffff:`. -/
theorem ipv6_mapped_front {ip : Bytes} (filled : ip ≠ []) :
    inet_pton6 (58 :: 58 :: 102 :: 102 :: 102 :: 102 :: 58 :: ip) =
      (Ipv6Scan.run ip ⟨[255, 255], some 0, ip, 0, 0⟩).bind Ipv6Scan.finish := by
  have colon : hex_digit_value 58 = none := by decide
  have f : hex_digit_value 102 = some 15 := by decide
  simp only [inet_pton6, List.head?_cons, if_true, Ipv6Scan.run, colon, f, Ipv6Scan.store, List.length_nil,
    List.isEmpty_iff, filled, if_false, Option.isSome_none, Bool.false_eq_true, reduceCtorEq]
  simp

/-- The spelling that puts an IPv4 address behind `::ffff:`. -/
theorem inet_pton6_mapped {ip octets : Bytes} (valid : inet_pton4 ip = some octets) :
    inet_pton6 (bytes "::ffff:" ++ ip) = some ([0, 0, 0, 0, 0, 0, 0, 0, 0, 0, 255, 255] ++ octets) := by
  obtain ⟨ended, ran, four, _⟩ := inet_pton4_run valid
  have filled : ip ≠ [] := by
    rintro rfl
    cases valid
  obtain ⟨val, dotted⟩ := ipv6_dotted (s := ⟨[255, 255], some 0, ip, 0, 0⟩) Ipv4Scan.counted_start rfl (Nat.le_refl 3)
    (by simp) valid ran four
  have text : bytes "::ffff:" = [58, 58, 102, 102, 102, 102, 58] := by decide
  have length := (inet_pton4_spec valid).1
  simp only [text, List.cons_append, List.nil_append, ipv6_mapped_front filled, dotted]
  simp [Ipv6Scan.finish, length]

example : inet_pton6 (bytes "::ffff:10.0.0.1") =
    some [0, 0, 0, 0, 0, 0, 0, 0, 0, 0, 255, 255, 10, 0, 0, 1] := by decide

end AoSdl
