import Aicl.Foundation.Regex

/-!
# Transport addresses

{lit}`TransportAddress` of {lit}`aicl/transport/address.py`: {lit}`parse`, with its three
regular expressions, and {lit}`__str__`.

Main results:

- Theorem {lit}`schemePattern_first_iff` and the ones beside it: what the regular
  expressions match.
- Theorem {lit}`TransportAddress.parse_str_iff`: which addresses are read back from
  their text.
-/

namespace Aicl.Transport

/-! ## Texts -/

/-- A Python string: its code points. -/
abbrev PyString : Type := List Nat

/-- A string literal. -/
def codes (s : String) : PyString := s.toList.map Char.toNat

/-- The code point of {lit}`\\n`. -/
def newline : Nat := 10

/-- What depends on the interpreter: {lit}`repr` of a string, the decimal digits of the
Unicode database, and {lit}`sys.get_int_max_str_digits()`, where 0 is no limit. -/
structure Interpreter where
  repr : PyString → PyString
  unicodeDecimal : Nat → Option (Fin 10)
  maxStrDigits : Nat

/-- The message of a {lit}`ValueError`. -/
structure ValueError where
  message : PyString
deriving DecidableEq

namespace Interpreter

variable (py : Interpreter)

/-- The value of a decimal digit; the database has no surprises below 128. -/
def digitValue (c : Nat) : Option Nat :=
  if 48 ≤ c ∧ c ≤ 57 then some (c - 48)
  else if c < 128 then none
  else (py.unicodeDecimal c).map Fin.val

/-- {lit}`\\d`. -/
def isDigit (c : Nat) : Bool := (py.digitValue c).isSome

/-- The number that a row of digits stands for. -/
def intValue (s : PyString) : Nat :=
  s.foldl (fun n c => n * 10 + (py.digitValue c).getD 0) 0

/-- A row of digits is too long to be converted. -/
def TooLong (s : PyString) : Prop := py.maxStrDigits ≠ 0 ∧ py.maxStrDigits < s.length

instance (s : PyString) : Decidable (py.TooLong s) := by
  unfold TooLong
  infer_instance

/-- {lit}`int(s)` of a row of digits; none is a {lit}`ValueError`. -/
def int (s : PyString) : Option Nat := if py.TooLong s then none else some (py.intValue s)

/-- The decimal numeral of a number. -/
def decimal (n : Nat) : PyString :=
  if n = 0 then [48] else (Nat.digits 10 n).reverse.map (48 + ·)

/-- {lit}`str(n)`. -/
def strInt (n : Nat) : Except ValueError PyString :=
  if py.TooLong (decimal n) then
    .error ⟨codes "Exceeds the limit (" ++ decimal py.maxStrDigits ++ codes (" digits) for " ++
      "integer string conversion; use sys.set_int_max_str_digits() to increase the limit")⟩
  else .ok (decimal n)

end Interpreter

/-! ## Addresses -/

/-- {lit}`VALID_SCHEMES`; {lit}`__post_init__` lets no others through. -/
inductive Scheme where
  | unix
  | pipe
  | shm
  | tcp
  | quic
deriving DecidableEq, Repr

namespace Scheme

/-- The scheme as a string. -/
def name : Scheme → PyString
  | unix => codes "unix"
  | pipe => codes "pipe"
  | shm => codes "shm"
  | tcp => codes "tcp"
  | quic => codes "quic"

/-- The scheme that a string is. -/
def ofName? (s : PyString) : Option Scheme :=
  [unix, pipe, shm, tcp, quic].find? fun scheme => scheme.name = s

/-- {lit}`scheme in ("tcp", "quic")`. -/
def isNetwork : Scheme → Bool
  | tcp | quic => true
  | _ => false

end Scheme

/-- {lit}`TransportAddress`. -/
structure TransportAddress where
  scheme : Scheme
  path : PyString
  host : Option PyString := none
  port : Option Nat := none
deriving DecidableEq

/-- {lit}`[a-zA-Z]`. -/
def isLetter (c : Nat) : Bool := (65 ≤ c && c ≤ 90) || (97 ≤ c && c ≤ 122)

/-- {lit}`[a-zA-Z0-9+-]`. -/
def isSchemeChar (c : Nat) : Bool := isLetter c || (48 ≤ c && c ≤ 57) || c == 43 || c == 45

/-- {lit}`lower` of a string of scheme characters. -/
def lower (s : PyString) : PyString := s.map fun c => if 65 ≤ c ∧ c ≤ 90 then c + 32 else c

/-- {lit}`^([a-zA-Z][a-zA-Z0-9+-]*?)://(.*)$`. -/
def schemePattern : Pattern Nat (PyString × PyString) := do
  let c ← Pattern.one isLetter
  let cs ← Pattern.starLazy isSchemeChar
  let _ ← Pattern.text (codes "://")
  let rest ← Pattern.star (· != newline)
  let _ ← Pattern.endOfText newline
  pure (c :: cs, rest)

/-- The code point of {lit}`]`. -/
def closeBracket : Nat := 93

/-- The code point of {lit}`:`. -/
def colon : Nat := 58

section Parser

variable (py : Interpreter)

/-- {lit}`\\[([^\\]]+)\\]:(\\d+)$`. -/
def bracketPattern : Pattern Nat (PyString × PyString) := do
  let _ ← Pattern.text (codes "[")
  let host ← Pattern.plus (· != closeBracket)
  let _ ← Pattern.text (codes "]:")
  let port ← Pattern.plus py.isDigit
  let _ ← Pattern.endOfText newline
  pure (host, port)

/-- {lit}`([^:]+):(\\d+)$`. -/
def hostPattern : Pattern Nat (PyString × PyString) := do
  let host ← Pattern.plus (· != colon)
  let _ ← Pattern.text (codes ":")
  let port ← Pattern.plus py.isDigit
  let _ ← Pattern.endOfText newline
  pure (host, port)

namespace TransportAddress

/-- The branch of {lit}`parse` for {lit}`tcp` and {lit}`quic`. -/
def parseNetwork (uri : PyString) (scheme : Scheme) (rest : PyString) :
    Except ValueError TransportAddress :=
  match ((bracketPattern py).first rest).or ((hostPattern py).first rest) with
  | none =>
      .error ⟨codes "Invalid " ++ scheme.name ++ codes " address " ++ py.repr uri ++
        codes ": expected host:port"⟩
  | some (host, portStr) =>
      match py.int portStr with
      | none => .error ⟨codes "Invalid port in " ++ py.repr uri⟩
      | some port => .ok { scheme, path := [], host := some host, port := some port }

/-- {lit}`TransportAddress.parse`. -/
def parse (uri : PyString) : Except ValueError TransportAddress :=
  if uri.isEmpty then .error ⟨codes "Empty transport address"⟩
  else
    match schemePattern.first uri with
    | none => .ok { scheme := .unix, path := uri }
    | some (group, rest) =>
        match Scheme.ofName? (lower group) with
        | none => .error ⟨codes "Unknown scheme " ++ py.repr (lower group)⟩
        | some scheme =>
            if scheme.isNetwork then parseNetwork py uri scheme rest
            else .ok { scheme, path := rest }

/-- {lit}`f"{self.port}"`. -/
def portText (self : TransportAddress) : Except ValueError PyString :=
  match self.port with
  | some port => py.strInt port
  | none => .ok (codes "None")

/-- {lit}`TransportAddress.__str__`. -/
def str (self : TransportAddress) : Except ValueError PyString :=
  match self.host with
  | some host => do
      let port ← self.portText py
      pure (self.scheme.name ++ codes "://" ++ host ++ codes ":" ++ port)
  | none =>
      if self.path.isEmpty then pure (self.scheme.name ++ codes ":")
      else pure (self.scheme.name ++ codes "://" ++ self.path)

end TransportAddress

end Parser

/-! ## What the expressions match -/

/-- What {lit}`$` leaves behind. -/
def AtEnd (r : PyString) : Prop := r = [] ∨ r = [newline]

/-- A name in front of {lit}`://`. -/
def IsSchemeName (s : PyString) : Prop :=
  ∃ c cs, s = c :: cs ∧ isLetter c = true ∧ ∀ d ∈ cs, isSchemeChar d = true

/-- The characters of a name are scheme characters. -/
theorem IsSchemeName.chars {s : PyString} (h : IsSchemeName s) :
    ∀ d ∈ s, isSchemeChar d = true := by
  obtain ⟨c, cs, rfl, hc, hcs⟩ := h
  refine List.forall_mem_cons.mpr ⟨?_, hcs⟩
  simp [isSchemeChar, hc]

/-- The matches of the expression for the scheme. -/
theorem mem_schemePattern {s group rest r : PyString} :
    ((group, rest), r) ∈ schemePattern s ↔
      s = group ++ codes "://" ++ (rest ++ r) ∧ IsSchemeName group ∧
        (∀ c ∈ rest, (c != newline) = true) ∧ AtEnd r := by
  simp only [schemePattern, Pattern.mem_bind, Pattern.mem_one, Pattern.mem_starLazy,
    Pattern.mem_text, Pattern.mem_star, Pattern.mem_endOfText, Pattern.mem_pure, Prod.mk.injEq]
  constructor
  · rintro ⟨c, _, ⟨rfl, hc⟩, cs, _, ⟨rfl, hcs⟩, -, _, rfl, _, _, ⟨rfl, hrest⟩, -, _,
      ⟨rfl, hend⟩, ⟨rfl, rfl⟩, rfl⟩
    exact ⟨by simp, ⟨c, cs, rfl, hc, hcs⟩, hrest, hend⟩
  · rintro ⟨rfl, ⟨c, cs, rfl, hc, hcs⟩, hrest, hend⟩
    exact ⟨c, _, ⟨by simp, hc⟩, cs, _, ⟨List.append_assoc _ _ _, hcs⟩, (), _, rfl, rest, r,
      ⟨rfl, hrest⟩, (), r, ⟨rfl, hend⟩, ⟨rfl, rfl⟩, rfl⟩

/-- A text has at most one scheme. -/
theorem schemePattern_unique {s : PyString} (x y : PyString × PyString) (r t : PyString)
    (hx : (x, r) ∈ schemePattern s) (hy : (y, t) ∈ schemePattern s) : x = y := by
  obtain ⟨group, rest⟩ := x
  obtain ⟨group', rest'⟩ := y
  obtain ⟨rfl, hgroup, hrest, hend⟩ := mem_schemePattern.mp hx
  obtain ⟨heq, hgroup', hrest', hend'⟩ := mem_schemePattern.mp hy
  have hsplit : group ++ 58 :: (47 :: 47 :: (rest ++ r)) =
      group' ++ 58 :: (47 :: 47 :: (rest' ++ t)) := by
    simpa [codes] using heq
  obtain ⟨rfl, -, hrests⟩ :=
    append_cons_inj hgroup.chars hgroup'.chars (by decide) (by decide) hsplit
  have hsame := append_end_inj hrest hrest' (by decide) hend hend' (by simpa using hrests)
  rw [hsame.1]

/-- What the expression for the scheme captures. -/
theorem schemePattern_first_iff {s group rest : PyString} :
    schemePattern.first s = some (group, rest) ↔
      ∃ r, s = group ++ codes "://" ++ (rest ++ r) ∧ IsSchemeName group ∧
        (∀ c ∈ rest, (c != newline) = true) ∧ AtEnd r := by
  rw [Pattern.first_eq_some_iff schemePattern_unique]
  simp only [mem_schemePattern]

section Ports

variable {py : Interpreter}

/-- The matches of the expression for a host in brackets. -/
theorem mem_bracketPattern {s host port r : PyString} :
    ((host, port), r) ∈ bracketPattern py s ↔
      s = codes "[" ++ (host ++ codes "]:" ++ (port ++ r)) ∧
        (host ≠ [] ∧ ∀ c ∈ host, (c != closeBracket) = true) ∧
          (port ≠ [] ∧ ∀ c ∈ port, py.isDigit c = true) ∧ AtEnd r := by
  simp only [bracketPattern, Pattern.mem_bind, Pattern.mem_text, Pattern.mem_plus,
    Pattern.mem_endOfText, Pattern.mem_pure, Prod.mk.injEq]
  constructor
  · rintro ⟨-, _, rfl, _, _, ⟨rfl, hhost⟩, -, _, rfl, _, _, ⟨rfl, hport⟩, -, _, ⟨rfl, hend⟩,
      ⟨rfl, rfl⟩, rfl⟩
    exact ⟨by simp, hhost, hport, hend⟩
  · rintro ⟨rfl, hhost, hport, hend⟩
    exact ⟨(), _, rfl, host, _, ⟨List.append_assoc _ _ _, hhost⟩, (), _, rfl, port, r,
      ⟨rfl, hport⟩, (), r, ⟨rfl, hend⟩, ⟨rfl, rfl⟩, rfl⟩

/-- The matches of the expression for another host. -/
theorem mem_hostPattern {s host port r : PyString} :
    ((host, port), r) ∈ hostPattern py s ↔
      s = host ++ codes ":" ++ (port ++ r) ∧
        (host ≠ [] ∧ ∀ c ∈ host, (c != colon) = true) ∧
          (port ≠ [] ∧ ∀ c ∈ port, py.isDigit c = true) ∧ AtEnd r := by
  simp only [hostPattern, Pattern.mem_bind, Pattern.mem_text, Pattern.mem_plus,
    Pattern.mem_endOfText, Pattern.mem_pure, Prod.mk.injEq]
  constructor
  · rintro ⟨_, _, ⟨rfl, hhost⟩, -, _, rfl, _, _, ⟨rfl, hport⟩, -, _, ⟨rfl, hend⟩, ⟨rfl, rfl⟩, rfl⟩
    exact ⟨by simp, hhost, hport, hend⟩
  · rintro ⟨rfl, hhost, hport, hend⟩
    exact ⟨host, _, ⟨List.append_assoc _ _ _, hhost⟩, (), _, rfl, port, r, ⟨rfl, hport⟩, (), r,
      ⟨rfl, hend⟩, ⟨rfl, rfl⟩, rfl⟩

/-- No ASCII character but the ten digits is a digit. -/
theorem Interpreter.isDigit_ascii {c : Nat} (hlt : c < 128) (hc : ¬ (48 ≤ c ∧ c ≤ 57)) :
    py.isDigit c = false := by
  simp [isDigit, digitValue, hc, hlt]

/-- A text names at most one host that is not in brackets. -/
theorem hostPattern_unique {s : PyString} (x y : PyString × PyString) (r t : PyString)
    (hx : (x, r) ∈ hostPattern py s) (hy : (y, t) ∈ hostPattern py s) : x = y := by
  obtain ⟨host, port⟩ := x
  obtain ⟨host', port'⟩ := y
  obtain ⟨rfl, hhost, hport, hend⟩ := mem_hostPattern.mp hx
  obtain ⟨heq, hhost', hport', hend'⟩ := mem_hostPattern.mp hy
  have hsplit : host ++ 58 :: (port ++ r) = host' ++ 58 :: (port' ++ t) := by
    simpa [codes] using heq
  obtain ⟨rfl, -, hrests⟩ := append_cons_inj hhost.2 hhost'.2 (by decide) (by decide) hsplit
  have hsame := append_end_inj hport.2 hport'.2
    (Interpreter.isDigit_ascii (by decide) (by decide)) hend hend' hrests
  rw [hsame.1]

/-! ## Decimal numerals -/

/-- The characters of a numeral. -/
theorem mem_decimal {n c : Nat} (h : c ∈ Interpreter.decimal n) : 48 ≤ c ∧ c ≤ 57 := by
  unfold Interpreter.decimal at h
  split at h
  · simp only [List.mem_singleton] at h
    omega
  · obtain ⟨d, hd, rfl⟩ := List.mem_map.mp h
    have hlt := Nat.digits_lt_base (by decide) (List.mem_reverse.mp hd)
    omega

/-- A numeral has digits. -/
theorem decimal_ne_nil (n : Nat) : Interpreter.decimal n ≠ [] := by
  unfold Interpreter.decimal
  split
  · exact List.cons_ne_nil _ _
  · rename_i hn
    simpa using Nat.digits_ne_nil_iff_ne_zero.mpr hn

/-- The ten digits are digits. -/
theorem isDigit_of_mem_decimal {n c : Nat} (h : c ∈ Interpreter.decimal n) :
    py.isDigit c = true := by
  have hrange := mem_decimal h
  simp [Interpreter.isDigit, Interpreter.digitValue, hrange]

/-- A numeral stands for its number. -/
theorem intValue_decimal (n : Nat) : py.intValue (Interpreter.decimal n) = n := by
  unfold Interpreter.intValue Interpreter.decimal
  by_cases hn : n = 0
  · simp [hn, Interpreter.digitValue]
  · have hdigits : ∀ ds : List Nat, (∀ d ∈ ds, d < 10) →
        (ds.reverse.map (48 + ·)).foldl
          (fun n c => n * 10 + (py.digitValue c).getD 0) 0 = Nat.ofDigits 10 ds := by
      intro ds hds
      induction ds with
      | nil => rfl
      | cons d ds ih =>
          obtain ⟨hd, hrest⟩ := List.forall_mem_cons.mp hds
          have hvalue : (py.digitValue (48 + d)).getD 0 = d := by
            rw [Interpreter.digitValue, if_pos (by omega)]
            simp
          rw [List.reverse_cons, List.map_append, List.foldl_append, ih hrest, Nat.ofDigits_cons]
          simp only [List.map_cons, List.map_nil, List.foldl_cons, List.foldl_nil, hvalue]
          omega
    rw [if_neg hn, hdigits _ fun d hd => Nat.digits_lt_base (by decide) hd, Nat.ofDigits_digits]

/-- A row of digits stands for a number with at most as many digits. -/
theorem intValue_lt (s : PyString) : py.intValue s < 10 ^ s.length := by
  have hdigit : ∀ c, (py.digitValue c).getD 0 < 10 := by
    intro c
    unfold Interpreter.digitValue
    split
    · simp only [Option.getD_some]
      omega
    · split
      · simp
      · cases py.unicodeDecimal c with
        | none => simp
        | some d => exact d.isLt
  induction s using List.reverseRecOn with
  | nil => simp [Interpreter.intValue]
  | append_singleton s c ih =>
      have hc := hdigit c
      unfold Interpreter.intValue at ih ⊢
      rw [List.foldl_append, List.length_append, Nat.pow_add]
      simp only [List.foldl_cons, List.foldl_nil, List.length_singleton, Nat.pow_one]
      omega

/-- The numeral of what a row of digits stands for is no longer than the row. -/
theorem decimal_intValue_length_le {s : PyString} (hs : s ≠ []) :
    (Interpreter.decimal (py.intValue s)).length ≤ s.length := by
  unfold Interpreter.decimal
  split
  · exact List.length_pos_iff.mpr hs
  · rw [List.length_map, List.length_reverse, Nat.digits_length_le_iff (by decide)]
    exact intValue_lt s

/-- What was converted can be written and converted again. -/
theorem strInt_of_int {s : PyString} {n : Nat} (hs : s ≠ []) (h : py.int s = some n) :
    py.strInt n = .ok (Interpreter.decimal n) ∧ py.int (Interpreter.decimal n) = some n := by
  unfold Interpreter.int at h
  split at h
  · cases h
  · rename_i hlimit
    obtain rfl := Option.some.inj h
    have hshort : ¬ py.TooLong (Interpreter.decimal (py.intValue s)) := by
      have hle := @decimal_intValue_length_le py s hs
      unfold Interpreter.TooLong at hlimit ⊢
      omega
    exact ⟨if_neg hshort, by rw [Interpreter.int, if_neg hshort, intValue_decimal]⟩

end Ports

/-! ## Reading a text back -/

/-- A scheme is read back from its name. -/
theorem Scheme.ofName?_lower_name (scheme : Scheme) : ofName? (lower scheme.name) = some scheme := by
  cases scheme <;> decide

/-- The names of the schemes are names of schemes. -/
theorem Scheme.isSchemeName (scheme : Scheme) : IsSchemeName scheme.name := by
  cases scheme <;> exact ⟨_, _, rfl, by decide, by decide⟩

/-- A text that starts with a scheme and has no newline after it. -/
theorem schemePattern_first_name (scheme : Scheme) {body : PyString} (hbody : newline ∉ body) :
    schemePattern.first (scheme.name ++ codes "://" ++ body) = some (scheme.name, body) := by
  exact schemePattern_first_iff.mpr
    ⟨[], by simp, scheme.isSchemeName, forall_bne_iff.mpr hbody, .inl rfl⟩

namespace TransportAddress

variable {py : Interpreter} {uri rest : PyString} {scheme : Scheme} {a : TransportAddress}

/-- How an address with a host was parsed. -/
theorem parseNetwork_cases (h : parseNetwork py uri scheme rest = .ok a) :
    ∃ host portStr port, py.int portStr = some port ∧
      a = { scheme, path := [], host := some host, port := some port } ∧
        ((bracketPattern py).first rest = some (host, portStr) ∨
          (bracketPattern py).first rest = none ∧
            (hostPattern py).first rest = some (host, portStr)) := by
  unfold parseNetwork at h
  cases hmatch : ((bracketPattern py).first rest).or ((hostPattern py).first rest) with
  | none => simp [hmatch] at h
  | some m =>
      obtain ⟨host, portStr⟩ := m
      simp only [hmatch] at h
      cases hport : py.int portStr with
      | none => simp [hport] at h
      | some port =>
          simp only [hport, Except.ok.injEq] at h
          exact ⟨host, portStr, port, hport, h.symm, Option.or_eq_some_iff.mp hmatch⟩

/-- How an address was parsed. -/
theorem parse_cases (h : parse py uri = .ok a) :
    (uri ≠ [] ∧ schemePattern.first uri = none ∧ a = { scheme := .unix, path := uri }) ∨
      ∃ group rest scheme, schemePattern.first uri = some (group, rest) ∧
        Scheme.ofName? (lower group) = some scheme ∧
          (scheme.isNetwork = false ∧ a = { scheme, path := rest } ∨
            scheme.isNetwork = true ∧ parseNetwork py uri scheme rest = .ok a) := by
  unfold parse at h
  by_cases hempty : uri = []
  · simp [hempty] at h
  · rw [if_neg (by simpa using hempty)] at h
    cases hfirst : schemePattern.first uri with
    | none =>
        simp only [hfirst, Except.ok.injEq] at h
        exact .inl ⟨hempty, rfl, h.symm⟩
    | some m =>
        obtain ⟨group, rest⟩ := m
        simp only [hfirst] at h
        cases hname : Scheme.ofName? (lower group) with
        | none => simp [hname] at h
        | some scheme =>
            simp only [hname] at h
            refine .inr ⟨group, rest, scheme, rfl, hname, ?_⟩
            cases hnetwork : scheme.isNetwork with
            | true => exact .inr ⟨rfl, by simpa [hnetwork] using h⟩
            | false => exact .inl ⟨rfl, by simpa [hnetwork, eq_comm] using h⟩

/-- A text that starts with a scheme and has no newline after it. -/
theorem parse_name (scheme : Scheme) {body : PyString} (hbody : newline ∉ body) :
    parse py (scheme.name ++ codes "://" ++ body) =
      if scheme.isNetwork then parseNetwork py (scheme.name ++ codes "://" ++ body) scheme body
      else .ok { scheme, path := body } := by
  have hne : (scheme.name ++ codes "://" ++ body).isEmpty = false := by
    obtain ⟨c, cs, hname, -⟩ := scheme.isSchemeName
    rw [hname]
    rfl
  simp only [parse, hne, schemePattern_first_name scheme hbody, scheme.ofName?_lower_name]
  rfl

/-- Which texts are read back: without a scheme, those without a newline; with a local
scheme, those with something after it; and with another one, those without a host in
brackets that has a colon. -/
def Printable (py : Interpreter) (uri : PyString) : Prop :=
  match schemePattern.first uri with
  | none => newline ∉ uri
  | some (group, rest) =>
      match Scheme.ofName? (lower group) with
      | none => True
      | some scheme =>
          if scheme.isNetwork then
            ∀ host port, (bracketPattern py).first rest = some (host, port) → colon ∉ host
          else rest ≠ []

/-- The address is read back from its text. -/
def ReadBack (py : Interpreter) (a : TransportAddress) : Prop :=
  ∃ text, a.str py = .ok text ∧ parse py text = .ok a

/-- What is read back, when the text is known. -/
theorem readBack_iff {text : PyString} (h : a.str py = .ok text) :
    a.ReadBack py ↔ parse py text = .ok a := by
  constructor
  · rintro ⟨text', htext, hparse⟩
    rw [h] at htext
    cases htext
    exact hparse
  · exact fun hparse => ⟨text, h, hparse⟩

/-! ### Paths -/

/-- A path is the whole text, or it has no newline. -/
theorem path_of_parse (h : parse py uri = .ok a) : a.path = uri ∨ newline ∉ a.path := by
  rcases parse_cases h with ⟨-, -, rfl⟩ | ⟨group, rest, scheme, hfirst, -, hcase⟩
  · exact .inl rfl
  · refine .inr ?_
    rcases hcase with ⟨-, rfl⟩ | ⟨-, hnetwork⟩
    · obtain ⟨r, -, -, hrest, -⟩ := schemePattern_first_iff.mp hfirst
      exact forall_bne_iff.mp hrest
    · obtain ⟨host, portStr, port, -, rfl, -⟩ := parseNetwork_cases hnetwork
      exact List.not_mem_nil

/-- An address without a host that has a path. -/
theorem readBack_path_iff (scheme : Scheme) {path : PyString} (hlocal : scheme.isNetwork = false)
    (hpath : path ≠ []) : ReadBack py { scheme, path } ↔ newline ∉ path := by
  have hstr : str py { scheme, path } = .ok (scheme.name ++ codes "://" ++ path) :=
    if_neg (by simpa using hpath)
  rw [readBack_iff hstr]
  constructor
  · intro hparse
    rcases path_of_parse hparse with hsame | hclean
    · have hlen := congrArg List.length hsame
      simp only [List.length_append, codes, List.length_map] at hlen
      have hthree : "://".toList.length = 3 := rfl
      omega
    · exact hclean
  · intro hclean
    rw [parse_name scheme hclean, hlocal]
    rfl

/-- The text of an address with neither host nor path is read as a path. -/
theorem not_readBack_empty (scheme : Scheme) : ¬ ReadBack py { scheme, path := [] } := by
  have hstr : str py { scheme, path := [] } = .ok (scheme.name ++ codes ":") := rfl
  rw [readBack_iff hstr]
  intro hparse
  have hslash : 47 ∉ scheme.name ++ codes ":" := by cases scheme <;> decide
  rcases parse_cases hparse with ⟨hne, -, heq⟩ | ⟨group, rest, scheme', hfirst, -⟩
  · exact hne (congrArg TransportAddress.path heq).symm
  · obtain ⟨r, hsplit, -⟩ := schemePattern_first_iff.mp hfirst
    refine hslash ?_
    rw [hsplit]
    simp [codes]

/-! ### Hosts -/

section Hosts

variable {host : PyString} (n : Nat)

/-- The text of a host without a colon. -/
theorem hostPattern_first_of_not_mem (hne : host ≠ []) (hcolon : colon ∉ host) :
    (hostPattern py).first (host ++ codes ":" ++ Interpreter.decimal n) =
      some (host, Interpreter.decimal n) := by
  refine (Pattern.first_eq_some_iff hostPattern_unique).mpr ⟨[], ?_⟩
  exact mem_hostPattern.mpr ⟨by simp, ⟨hne, forall_bne_iff.mpr hcolon⟩,
    ⟨decimal_ne_nil n, fun c hc => isDigit_of_mem_decimal hc⟩, .inl rfl⟩

/-- A numeral has no colon. -/
theorem count_colon_decimal : (Interpreter.decimal n).count colon = 0 := by
  refine List.count_eq_zero.mpr fun hmem => ?_
  have hrange := mem_decimal hmem
  simp [colon] at hrange

/-- Digits and the end of a text have no colon. -/
theorem count_colon_port {port r : PyString} (hport : ∀ c ∈ port, py.isDigit c = true)
    (hend : AtEnd r) : (port ++ r).count colon = 0 := by
  rw [List.count_append, Nat.add_eq_zero_iff]
  constructor
  · refine List.count_eq_zero.mpr fun hmem => ?_
    have hdigit := hport colon hmem
    rw [Interpreter.isDigit_ascii (by decide) (by decide)] at hdigit
    exact Bool.noConfusion hdigit
  · rcases hend with rfl | rfl <;> decide

/-- The text of a host with a colon has no host. -/
theorem hostPattern_first_of_mem (hcolon : colon ∈ host) :
    (hostPattern py).first (host ++ codes ":" ++ Interpreter.decimal n) = none := by
  refine Pattern.first_eq_none_iff.mpr ?_
  rintro ⟨host', port⟩ r hmem
  obtain ⟨hsplit, ⟨-, hhost'⟩, ⟨-, hport⟩, hend⟩ := mem_hostPattern.mp hmem
  have hcount := congrArg (List.count colon) hsplit
  have hone : (codes ":").count colon = 1 := by decide
  have hnone : host'.count colon = 0 := List.count_eq_zero.mpr (forall_bne_iff.mp hhost')
  have hpos := List.count_pos_iff.mpr hcolon
  rw [List.count_append, List.count_append, List.count_append, List.count_append,
    count_colon_decimal, count_colon_port hport hend, hone, hnone] at hcount
  omega

/-- Without a closing bracket there is no host in brackets. -/
theorem bracketPattern_first_of_not_mem {s : PyString} (h : closeBracket ∉ s) :
    (bracketPattern py).first s = none := by
  refine Pattern.first_eq_none_iff.mpr ?_
  rintro ⟨host, port⟩ r hmem
  obtain ⟨rfl, -⟩ := mem_bracketPattern.mp hmem
  refine h ?_
  simp [codes, closeBracket]

/-- Whether a host without a colon is in brackets does not depend on the port. -/
theorem bracketPattern_first_of_port {port r : PyString} (hcolon : colon ∉ host)
    (hport : port ≠ [] ∧ ∀ c ∈ port, py.isDigit c = true) (hend : AtEnd r)
    (hnone : (bracketPattern py).first (host ++ codes ":" ++ (port ++ r)) = none) :
    (bracketPattern py).first (host ++ codes ":" ++ Interpreter.decimal n) = none := by
  refine Pattern.first_eq_none_iff.mpr ?_
  rintro ⟨host', port'⟩ r' hmem
  obtain ⟨hsplit, hhost', ⟨-, hport'⟩, hend'⟩ := mem_bracketPattern.mp hmem
  have hcount := congrArg (List.count colon) hsplit
  have hclean : host.count colon = 0 := List.count_eq_zero.mpr hcolon
  have hopen : (codes "[").count colon = 0 := by decide
  have hclose : (codes "]:").count colon = 1 := by decide
  have hone : (codes ":").count colon = 1 := by decide
  rw [List.count_append, List.count_append, List.count_append, List.count_append,
    List.count_append, count_colon_decimal, count_colon_port hport' hend', hone, hopen, hclose,
    hclean] at hcount
  have hclean' : colon ∉ host' := List.count_eq_zero.mp (by omega)
  have hsplit' : host ++ 58 :: Interpreter.decimal n =
      (91 :: (host' ++ [93])) ++ 58 :: (port' ++ r') := by
    simpa [codes] using hsplit
  have hhost : host = 91 :: (host' ++ [93]) := by
    refine (append_cons_inj (forall_bne_iff.mpr hcolon) (forall_bne_iff.mpr ?_) (by decide)
      (by decide) hsplit').1
    simp only [List.mem_cons, List.mem_append, List.not_mem_nil, or_false, not_or]
    exact ⟨by decide, hclean', by decide⟩
  refine Pattern.first_eq_none_iff.mp hnone (host', port) r (mem_bracketPattern.mpr ?_)
  exact ⟨by simp [hhost, codes], hhost', hport, hend⟩

/-- An address with a host that is in no brackets. -/
theorem readBack_host_iff {portStr : PyString} (hnetwork : scheme.isNetwork = true)
    (hne : host ≠ []) (hclean : newline ∉ host) (hdigits : portStr ≠ [])
    (hport : py.int portStr = some n)
    (hbracket : (bracketPattern py).first (host ++ codes ":" ++ Interpreter.decimal n) = none) :
    ReadBack py { scheme, path := [], host := some host, port := some n } ↔ colon ∉ host := by
  obtain ⟨hwrite, hread⟩ := strInt_of_int hdigits hport
  have hstr : str py { scheme, path := [], host := some host, port := some n } =
      .ok (scheme.name ++ codes "://" ++ (host ++ codes ":" ++ Interpreter.decimal n)) := by
    simp only [str, portText, hwrite, List.append_assoc]
    rfl
  have hbody : newline ∉ host ++ codes ":" ++ Interpreter.decimal n := by
    have hnumeral : newline ∉ Interpreter.decimal n := by
      intro hmem
      have hrange := mem_decimal hmem
      simp [newline] at hrange
    simp only [List.mem_append, hclean, hnumeral, or_false, false_or]
    decide
  rw [readBack_iff hstr, parse_name scheme hbody, if_pos hnetwork, parseNetwork, hbracket,
    Option.none_or]
  by_cases hcolon : colon ∈ host
  · rw [hostPattern_first_of_mem n hcolon]
    refine iff_of_false ?_ (fun hclean => hclean hcolon)
    intro herror
    cases herror
  · rw [hostPattern_first_of_not_mem n hne hcolon]
    refine iff_of_true ?_ hcolon
    simp only [hread]

end Hosts

/-- An address with a host is read back unless the host was in brackets and has a
colon. -/
theorem readBack_network_iff (hnetwork : scheme.isNetwork = true) (hrest : newline ∉ rest)
    (h : parseNetwork py uri scheme rest = .ok a) :
    a.ReadBack py ↔
      ∀ host port, (bracketPattern py).first rest = some (host, port) → colon ∉ host := by
  obtain ⟨host, portStr, n, hport, rfl, hmatch⟩ := parseNetwork_cases h
  rcases hmatch with hmatch | ⟨hnone, hmatch⟩
  · obtain ⟨r, hmem⟩ := Pattern.mem_of_first_eq_some hmatch
    obtain ⟨hsplit, ⟨hne, hhost⟩, ⟨hdigits, -⟩, -⟩ := mem_bracketPattern.mp hmem
    have hclean : newline ∉ host := by
      intro hmem
      refine hrest ?_
      simp [hsplit, hmem]
    have hbracket : closeBracket ∉ host ++ codes ":" ++ Interpreter.decimal n := by
      have hhost' : closeBracket ∉ host := forall_bne_iff.mp hhost
      have hnumeral : closeBracket ∉ Interpreter.decimal n := by
        intro hmem
        have hrange := mem_decimal hmem
        simp [closeBracket] at hrange
      simp only [List.mem_append, hhost', hnumeral, or_false, false_or]
      decide
    rw [readBack_host_iff n hnetwork hne hclean hdigits hport
      (bracketPattern_first_of_not_mem hbracket), hmatch]
    simp
  · obtain ⟨r, hmem⟩ := Pattern.mem_of_first_eq_some hmatch
    obtain ⟨hsplit, ⟨hne, hhost⟩, hdigits, hend⟩ := mem_hostPattern.mp hmem
    have hclean : newline ∉ host := by
      intro hmem
      refine hrest ?_
      simp [hsplit, hmem]
    have hcolon : colon ∉ host := forall_bne_iff.mp hhost
    rw [hsplit] at hnone
    rw [readBack_host_iff n hnetwork hne hclean hdigits.1 hport
      (bracketPattern_first_of_port n hcolon hdigits hend hnone), hsplit, hnone]
    simp [hcolon]

/-- What {lit}`parse` returns is read back from its text exactly for these texts. -/
theorem parse_str_iff (py : Interpreter) (uri : PyString) (a : TransportAddress)
    (h : parse py uri = .ok a) : a.ReadBack py ↔ Printable py uri := by
  unfold Printable
  rcases parse_cases h with ⟨hne, hfirst, rfl⟩ | ⟨group, rest, scheme, hfirst, hname, hcase⟩
  · rw [hfirst]
    exact readBack_path_iff .unix rfl hne
  · obtain ⟨r, -, -, hclean, -⟩ := schemePattern_first_iff.mp hfirst
    have hrest : newline ∉ rest := forall_bne_iff.mp hclean
    simp only [hfirst, hname]
    rcases hcase with ⟨hlocal, rfl⟩ | ⟨hnetwork, hparse⟩
    · rw [hlocal, if_neg Bool.false_ne_true]
      by_cases hempty : rest = []
      · rw [hempty]
        exact iff_of_false (not_readBack_empty scheme) (fun hne => hne rfl)
      · rw [readBack_path_iff scheme hlocal hempty]
        exact iff_of_true hrest hempty
    · rw [if_pos hnetwork]
      exact readBack_network_iff hnetwork hrest hparse

/-- An interpreter with the ASCII digits only. -/
def asciiInterpreter : Interpreter where
  repr s := codes "'" ++ s ++ codes "'"
  unicodeDecimal _ := none
  maxStrDigits := 4300

/-- A host name is read back. -/
theorem readBack_localhost : ∃ a, parse asciiInterpreter (codes "tcp://localhost:7890") = .ok a ∧
    a.ReadBack asciiInterpreter := by
  refine ⟨{ scheme := .tcp, path := [], host := some (codes "localhost"), port := some 7890 }, ?_⟩
  have hparse : parse asciiInterpreter (codes "tcp://localhost:7890") =
      .ok { scheme := .tcp, path := [], host := some (codes "localhost"), port := some 7890 } := by
    decide +kernel
  refine ⟨hparse, (parse_str_iff asciiInterpreter _ _ hparse).mpr ?_⟩
  have hfirst : schemePattern.first (codes "tcp://localhost:7890") =
      some (codes "tcp", codes "localhost:7890") := by decide +kernel
  have hname : Scheme.ofName? (lower (codes "tcp")) = some .tcp := by decide
  have hnone : (bracketPattern asciiInterpreter).first (codes "localhost:7890") = none := by
    decide +kernel
  simp [Printable, hfirst, hname, hnone, Scheme.isNetwork]

/-- The text of an address that was parsed with brackets has none. -/
theorem not_readBack_loopback : ¬ ∀ (uri : PyString) (a : TransportAddress),
    parse asciiInterpreter uri = .ok a → a.ReadBack asciiInterpreter := by
  intro h
  have hparse : parse asciiInterpreter (codes "tcp://[::1]:80") =
      .ok { scheme := .tcp, path := [], host := some (codes "::1"), port := some 80 } := by
    decide +kernel
  obtain ⟨text, hstr, hback⟩ := h _ _ hparse
  have htext : str asciiInterpreter
      { scheme := .tcp, path := [], host := some (codes "::1"), port := some 80 } =
        .ok (codes "tcp://::1:80") := by decide +kernel
  rw [htext] at hstr
  obtain rfl := Except.ok.inj hstr
  have hfails : (parse asciiInterpreter (codes "tcp://::1:80")).isOk = false := by decide +kernel
  rw [hback] at hfails
  exact Bool.noConfusion hfails

end TransportAddress

end Aicl.Transport
