import Polyfill.Tool.Arithmetic

/-! # Printing

What the commands `echo` and `printf` print. In both of them a backslash begins a name for a byte.

* `echo`: the text for the arguments of `echo`.
* `formatted`: the text for a format and its arguments. -/

namespace Polyfill.Tool

/-! ### Escapes -/

/-- The byte that a backslash and a letter stand for. -/
def controlByte? (letter : UInt8) : Option UInt8 :=
  match letter with
  | 0x61 => some 0x07
  | 0x62 => some 0x08
  | 0x66 => some 0x0C
  | 0x6E => some 0x0A
  | 0x72 => some 0x0D
  | 0x74 => some 0x09
  | 0x76 => some 0x0B
  | 0x5C => some 0x5C
  | _ => none

/-- Read what follows a backslash: the bytes meant and the rest. Up to three octal digits name a byte; with
`skipsZero` a zero in front of them does not count. -/
def escape (skipsZero : Bool) (t : Text) : Text × Text :=
  let octal (digits : Text) : Text × Text :=
    let taken := (digits.take 3).takeWhile isOctalDigit
    ([UInt8.ofNat (readDigits 8 taken)], digits.drop taken.length)
  match t with
  | [] => ([0x5C], [])
  | b :: rest =>
    match controlByte? b with
    | some c => ([c], rest)
    | none =>
      if skipsZero && b == 0x30 then octal rest
      else if isOctalDigit b then octal (b :: rest)
      else ([0x5C, b], rest)

/-- The text with its escapes resolved, and whether an escape asks to print nothing more. -/
def unescaped : (fuel : Nat) → Text → Text × Bool
  | 0, t => (t, false)
  | _, [] => ([], false)
  | fuel + 1, b :: t =>
    if b == 0x5C then
      if t.head? == some 0x63 then ([], true)
      else
        let (bytes, rest) := escape true t
        let (more, stops) := unescaped fuel rest
        (bytes ++ more, stops)
    else
      let (more, stops) := unescaped fuel t
      (b :: more, stops)

/-- The text that `echo` prints. -/
def echo (arguments : List Text) : Text :=
  let isBare := arguments.head? == some (Text.ofString "-n")
  let line := [0x20].intercalate (if isBare then arguments.drop 1 else arguments)
  let (text, stops) := unescaped line.length line
  if isBare || stops then text else text ++ [0x0A]

/-! ### Formats -/

/-- How a value is set. -/
structure Setting where
  flags : Text
  width : Nat
  precision : Option Nat

/-- Read a setting. -/
def Setting.read (t : Text) : Setting × Text :=
  let flags := t.takeWhile (Text.ofString "-+ #0").contains
  let afterFlags := t.drop flags.length
  let width := afterFlags.takeWhile isDigit
  let afterWidth := afterFlags.drop width.length
  match afterWidth with
  | 0x2E :: more =>
    let precision := more.takeWhile isDigit
    (⟨flags, readDigits 10 width, some (readDigits 10 precision)⟩, more.drop precision.length)
  | _ => (⟨flags, readDigits 10 width, none⟩, afterWidth)

/-- The text brought to the width of the setting. -/
def Setting.fill (s : Setting) (t : Text) (isNumber : Bool) : Text :=
  let missing := s.width - t.length
  if s.flags.contains 0x2D then t ++ List.replicate missing 0x20
  else if isNumber && s.flags.contains 0x30 && s.precision.isNone then
    match t with
    | 0x2D :: digits => 0x2D :: List.replicate missing 0x30 ++ digits
    | _ => List.replicate missing 0x30 ++ t
  else List.replicate missing 0x20 ++ t

/-- The digits of a number in a base. -/
def digitsIn (base n : Nat) : Text := Text.ofString (String.ofList (Nat.toDigits base n))

/-- The text of an argument set as the letter of a conversion tells; nothing if the letter is none. -/
def converted (s : Setting) (letter : UInt8) (argument : Option Text) : Option Text :=
  let t := argument.getD []
  let n : Int := ((Number.ofValue? t).map (·.toInt)).getD 0
  let unsigned : Nat := (n % (18446744073709551616 : Int)).toNat
  let number (digits : Text) : Text :=
    s.fill (List.replicate (s.precision.getD 0 - digits.length) 0x30 ++ digits) true
  match letter with
  | 0x73 => some (s.fill ((s.precision.map t.take).getD t) false)
  | 0x62 => some (s.fill (unescaped t.length t).1 false)
  | 0x63 => some (s.fill (t.take 1) false)
  | 0x64 | 0x69 =>
    some (if n < 0 then s.fill (Text.ofString (toString n)) true
      else if s.flags.contains 0x2B then s.fill (0x2B :: Text.ofString (toString n)) true
      else number (Text.ofString (toString n)))
  | 0x75 => some (number (digitsIn 10 unsigned))
  | 0x6F => some (number (digitsIn 8 unsigned))
  | 0x78 => some (number (digitsIn 16 unsigned))
  | 0x58 => some (number ((digitsIn 16 unsigned).map fun b => if isDigit b then b else b - 0x20))
  | _ => none

/-- One pass through a format: the text and the arguments that are left, or nothing if a conversion makes
no sense. -/
def formatOnce : (fuel : Nat) → Text → List Text → Option (Text × List Text)
  | 0, _, arguments => some ([], arguments)
  | _, [], arguments => some ([], arguments)
  | fuel + 1, b :: t, arguments =>
    if b == 0x5C then
      let (bytes, rest) := escape false t
      (formatOnce fuel rest arguments).map fun (more, left) => (bytes ++ more, left)
    else if b == 0x25 then
      if t.head? == some 0x25 then
        (formatOnce fuel (t.drop 1) arguments).map fun (more, left) => (b :: more, left)
      else
        let (setting, rest) := Setting.read t
        match rest with
        | [] => none
        | letter :: rest => do
          let text ← converted setting letter arguments.head?
          let (more, left) ← formatOnce fuel rest (arguments.drop 1)
          return (text ++ more, left)
    else (formatOnce fuel t arguments).map fun (more, left) => (b :: more, left)

/-- The passes through a format until no arguments are left. -/
def formatAll : (fuel : Nat) → Text → List Text → Option Text
  | 0, _, _ => some []
  | fuel + 1, format, arguments => do
    let (text, left) ← formatOnce format.length format arguments
    if left.isEmpty || left.length == arguments.length then return text
    return text ++ (← formatAll fuel format left)

/-- **The text that `printf` prints**, nothing if the format makes no sense. -/
def formatted (format : Text) (arguments : List Text) : Option Text :=
  formatAll (arguments.length + 1) format arguments

end Polyfill.Tool
