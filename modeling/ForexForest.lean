import ForexForest.JavaText
import ForexForest.FirstMax
import ForexForest.Comparator
import ForexForest.JavaDouble
import ForexForest.JdkText
import ForexForest.CandleStick
import ForexForest.CsvRoundTrip
import ForexForest.DataPrep
import ForexForest.MinuteBlocks
import ForexForest.PreparedRecords
import ForexForest.DecisionTree
import ForexForest.TreeShape
import ForexForest.Entropy
import ForexForest.RealGain
import ForexForest.LeafPurity
import ForexForest.TrainingConsistency
import ForexForest.StoredModel
import ForexForest.HashMap
import ForexForest.RandomForest
import ForexForest.VoteOrder
import ForexForest.ColumnFamily
import ForexForest.MapReduceForest
import ForexForest.SplitSearch
import ForexForest.ArgMaxSplit
import ForexForest.TreeOrder
import ForexForest.TrainingOrder
import ForexForest.UnsetPrices
import ForexForest.RowContents
import ForexForest.JavaLists
import ForexForest.ForestTraining
import ForexForest.BoxedInteger
import ForexForest.CassandraForest
import ForexForest.CassandraFigures
import ForexForest.DigitText
import ForexForest.Libsvm
import ForexForest.TrueGain
import ForexForest.FeatureViews
import ForexForest.MapperSplit
import ForexForest.Evaluation
import ForexForest.PreparedEvaluation
import ForexForest.MapReduceJob
import ForexForest.PreparedParts
import ForexForest.Recoding
import ForexForest.InsertStatement
import ForexForest.PreparedConversion
import ForexForest.RecordReaders
import ForexForest.ChronologicalSplit
