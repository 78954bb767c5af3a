-- How settled a ledger's answer has to be.
namespace YieldVault

inductive Commitment
  | processed
  | confirmed
  | finalized
  deriving DecidableEq, Repr

namespace Commitment

def all : List Commitment := [processed, confirmed, finalized]

def name : Commitment → String
  | processed => "processed"
  | confirmed => "confirmed"
  | finalized => "finalized"

/-- The level of a name; names are exact. -/
def ofName? (text : String) : Option Commitment := all.find? (·.name = text)

end Commitment

end YieldVault
