import Bitcask.Basic
import Bitcask.Codec
import Bitcask.DataStorage
import Bitcask.Database.Core
import Bitcask.Database.Iter
import Bitcask.Database.Spec
import Bitcask.Database.Invariant
import Bitcask.Database.Rollover
import Bitcask.Database.Locations
import Bitcask.Database.Reload
import Bitcask.Database.IterOrder
import Bitcask.Database.Hint
import Bitcask.KeyDir
import Bitcask.Facade
import Bitcask.Session
import Bitcask.ReadYourWrites
import Bitcask.Errors
import Bitcask.Reopen
import Bitcask.Merge
import Bitcask.Iteration
import Bitcask.RowIntegrity
import Bitcask.Recovery
import Bitcask.Corruption
