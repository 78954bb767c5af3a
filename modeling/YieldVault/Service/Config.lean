-- The settings of the service: where it listens, whom it lets in, and how often
-- it rebalances. A setting that makes no sense is as good as none.
import YieldVault.Settings

namespace YieldVault

structure ServiceConfig where
  port : UInt16
  /-- The origins that browsers may call from. -/
  origins : List String
  /-- The keys that open the vault's routes; without any, they are open. -/
  apiKeys : List String
  /-- Seconds between two passes of the schedule; zero for no schedule. -/
  interval : Nat
  deriving DecidableEq, Repr

namespace ServiceConfig

def defaultPort : UInt16 := 3001

def defaultOrigins : List String := ["http://localhost:3000"]

/-- The pieces between commas, without the blanks around them. -/
def listOf (text : String) : List String := (Text.pieces ',' text).map Text.trim

/-- The keys of a list; blank pieces are none. -/
def keysOf (text : String) : List String := (listOf text).filter fun key => !key.isEmpty

def ofLookup (lookup : Lookup) : ServiceConfig where
  port := ((lookup "PORT").bind (Text.unsigned? UInt16.size)).elim defaultPort UInt16.ofNat
  origins := (lookup "CORS_ORIGINS").elim defaultOrigins listOf
  apiKeys := (lookup "API_KEYS").elim [] keysOf
  interval := ((lookup "REBALANCE_INTERVAL_SECS").bind (Text.unsigned? UInt64.size)).getD 0

/-- Whether a request with this key may reach the vault's routes. -/
def admits (config : ServiceConfig) (key : Option String) : Bool :=
  config.apiKeys.isEmpty || key.any config.apiKeys.contains

end ServiceConfig

end YieldVault
