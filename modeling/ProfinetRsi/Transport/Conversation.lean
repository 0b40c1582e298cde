import ProfinetRsi.Transport.Frame

/-!
# `ProfinetRsi.Transport.Conversation`: numbering conversations

Conversations are numbered in the order in which they are first seen. The table
is that order: a conversation's number is its position in the list of keys.
-/

set_option autoImplicit false

namespace ProfinetRsi

/-- The conversations seen so far, in the order of their numbers. -/
structure ConversationTable where
  keys : List ConversationKey := []
deriving DecidableEq, Repr

namespace ConversationTable

/-- The number of a conversation seen before. -/
def find? (table : ConversationTable) (key : ConversationKey) : Option Nat :=
  table.keys.idxOf? key

/-- The number of a conversation, which is added at the end if it is new. -/
def findOrCreate (table : ConversationTable) (key : ConversationKey) :
    Nat × ConversationTable :=
  match table.find? key with
  | some number => (number, table)
  | none => (table.keys.length, ⟨table.keys ++ [key]⟩)

/-- How many conversations there are. -/
def size (table : ConversationTable) : Nat :=
  table.keys.length

end ConversationTable

end ProfinetRsi
