import RSQLCipher.Values

namespace RSQLCipher.DeclaredType

open RSQLCipher.Values

inductive Affinity where
  | blob | text | numeric | integer | real
deriving DecidableEq, Repr

/-- The table `sqlite3UpperToLower`: only the ASCII capitals move. -/
def sqlite3UpperToLower (b : UInt8) : UInt8 := if 65 ≤ b ∧ b ≤ 90 then b + 32 else b

def keyword (a b c d : Char) : UInt32 :=
  (a.val <<< 24) + (b.val <<< 16) + (c.val <<< 8) + d.val

/-- The loop of `sqlite3AffinityType`, with its rolling window of the last four
lower-cased bytes and the affinity found so far. -/
def scan : UInt32 → Affinity → Bytes → Affinity
  | _, aff, [] => aff
  | h, aff, b :: zIn =>
    if b = 0 then aff
    else
      let h := (h <<< 8) + (sqlite3UpperToLower b).toUInt32
      if h = keyword 'c' 'h' 'a' 'r' then scan h .text zIn
      else if h = keyword 'c' 'l' 'o' 'b' then scan h .text zIn
      else if h = keyword 't' 'e' 'x' 't' then scan h .text zIn
      else if h = keyword 'b' 'l' 'o' 'b' ∧ (aff = .numeric ∨ aff = .real) then scan h .blob zIn
      else if h = keyword 'r' 'e' 'a' 'l' ∧ aff = .numeric then scan h .real zIn
      else if h = keyword 'f' 'l' 'o' 'a' ∧ aff = .numeric then scan h .real zIn
      else if h = keyword 'd' 'o' 'u' 'b' ∧ aff = .numeric then scan h .real zIn
      else if h &&& 0x00FFFFFF = keyword '\x00' 'i' 'n' 't' then .integer
      else scan h aff zIn

def sqlite3AffinityType (zIn : Bytes) : Affinity := scan 0 .numeric zIn

end RSQLCipher.DeclaredType
